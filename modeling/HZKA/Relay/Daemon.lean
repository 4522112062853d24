/-
  HZKA.Relay.Daemon
  ────────────
  **THE RELAY DAEMON** (`relay/relay.js`): `processRound`, started by a timer.

  A call of `processRound` is a sequence of segments between its awaits.  It reads
  `lastProcessedBlock` in the segment after `getBlockNumber` and writes it in its last one;
  `runDaemon` starts another call at every tick, finished or not.  Blocks are immutable;
  the range a commit was made for is a history variable (its roots are random numbers).

    • `exec_effect` — what one segment can do;
    • `relay_exactly_once` — if no call enters its round while another is in one, the cursor
      never decreases and, when nothing runs, every block with an event up to the cursor is
      covered by exactly one commit;
    • `relay_overlap` — two ticks are enough to commit a block twice, and to move the cursor
      backwards, with every remote call successful.
-/
import HZKA.EVM.Abi
import HZKA.Lib.Run

namespace HZKA.Relay.Daemon

open HZKA.Lib HZKA.EVM

/-! ## §1. Chain A. -/

/-- The two events of chain A. -/
inductive EventType
  | Burned
  | Locked
  deriving DecidableEq

/-- A logged event. -/
structure Event where
  type : EventType
  block : Nat
  txHash : Bytes32
  deriving DecidableEq

/-- The logs in each block, and the outcomes of `randFieldBytes32`. -/
structure World where
  burned : Nat → List Bytes32
  locked : Nat → List Bytes32
  randFieldBytes32 : Nat → Bytes32

/-- The block logs one. -/
def World.HasEvent (w : World) (b : Nat) : Prop := w.burned b ≠ [] ∨ w.locked b ≠ []

/-- The logs of one type between two blocks, both included. -/
def queryFilter (type : EventType) (logs : Nat → List Bytes32) (fromBlock toBlock : Nat) :
    List Event :=
  (List.range' fromBlock (toBlock + 1 - fromBlock)).flatMap fun b =>
    (logs b).map fun txHash => ⟨type, b, txHash⟩

theorem logs_of_queryFilter_nil {type : EventType} {logs : Nat → List Bytes32}
    {fromBlock toBlock b : Nat} (h : queryFilter type logs fromBlock toBlock = [])
    (hfrom : fromBlock ≤ b) (hto : b ≤ toBlock) : logs b = [] := by
  unfold queryFilter at h
  rw [List.flatMap_eq_nil_iff] at h
  have hb : b ∈ List.range' fromBlock (toBlock + 1 - fromBlock) := by
    rw [List.mem_range'_1]
    omega
  exact List.map_eq_nil_iff.mp (h b hb)

/-! ## §2. A call of `processRound`. -/

/-- The roots of a commit. -/
structure Roots where
  oldRoot : Bytes32
  newRoot : Bytes32
  deriving DecidableEq

/-- Where a round is suspended.  `scanned`, `proven` and `confirmed` are the steps from an
async function back to its caller. -/
inductive Stage
  | queryBurned
  | queryLocked (events : List Event)
  | scanned (events : List Event)
  | getOldHeader
  | getNewHeader
  | generateProof (roots : Roots)
  | proven (roots : Roots)
  | submitCommit (roots : Roots)
  | wait (roots : Roots)
  | confirmed
  deriving DecidableEq

/-- A call: before it reads the cursor, in a round, or over.  `lost` is a rejection whose
commit took effect all the same. -/
inductive Invocation
  | getBlockNumber
  | inRound (fromBlock toBlock : Nat) (stage : Stage)
  | returned
  | rejected
  | lost
  deriving DecidableEq

/-- Between cursor and commit. -/
def Invocation.isInRound : Invocation → Bool
  | .inRound _ _ _ => true
  | _ => false

/-- Over, one way or another. -/
def Invocation.isFinished : Invocation → Bool
  | .returned | .rejected | .lost => true
  | _ => false

/-- A commit that took effect on the audit chain, with the blocks it was made for. -/
structure Commit where
  fromBlock : Nat
  toBlock : Nat
  roots : Roots
  deriving DecidableEq

/-- The counters. -/
structure Stats where
  eventsDetected : Nat
  proofsGenerated : Nat
  commitsSubmitted : Nat

/-- The relay between two segments, with the height of chain A. -/
structure State where
  head : Nat
  lastProcessedBlock : Nat
  invocations : List Invocation
  draws : Nat
  commits : List Commit
  stats : Stats

/-- After `init` and the first call of `poll`. -/
def boot (blockA grown : Nat) : State :=
  ⟨blockA + grown, blockA, [.getBlockNumber], 0, [], ⟨0, 0, 0⟩⟩

/-- Invocation `i` is suspended anew, or over. -/
def State.put (s : State) (i : Nat) (p : Invocation) : State :=
  { s with invocations := s.invocations.set i p }

/-- How a remote call ends.  `lost`: the transaction takes effect, its sender sees an error. -/
inductive Answer
  | number (n : Nat)
  | ok
  | failed
  | lost

variable (w : World)

/-- The segments of a round over `fromBlock … toBlock`. -/
def roundSegment (i fromBlock toBlock : Nat) : Stage → Answer → State → Except Unit State
  | .queryBurned, .ok, s =>
    .ok (s.put i (.inRound fromBlock toBlock
      (.queryLocked (queryFilter .Burned w.burned fromBlock toBlock))))
  | .queryLocked events, .ok, s =>
    .ok (s.put i (.inRound fromBlock toBlock
      (.scanned (events ++ queryFilter .Locked w.locked fromBlock toBlock))))
  | .scanned events, .ok, s =>
    let stats := { s.stats with eventsDetected := s.stats.eventsDetected + events.length }
    if events.length = 0 then
      .ok ({ s with lastProcessedBlock := toBlock, stats := stats }.put i .returned)
    else .ok ({ s with stats := stats }.put i (.inRound fromBlock toBlock .getOldHeader))
  | .getOldHeader, .ok, s => .ok (s.put i (.inRound fromBlock toBlock .getNewHeader))
  | .getNewHeader, .ok, s =>
    .ok ({ s with draws := s.draws + 2 }.put i (.inRound fromBlock toBlock
      (.generateProof ⟨w.randFieldBytes32 s.draws, w.randFieldBytes32 (s.draws + 1)⟩)))
  | .generateProof roots, .ok, s =>
    let stats := { s.stats with proofsGenerated := s.stats.proofsGenerated + 1 }
    .ok ({ s with stats := stats }.put i (.inRound fromBlock toBlock (.proven roots)))
  | .proven roots, .ok, s => .ok (s.put i (.inRound fromBlock toBlock (.submitCommit roots)))
  | .submitCommit roots, .ok, s => .ok (s.put i (.inRound fromBlock toBlock (.wait roots)))
  | .submitCommit roots, .lost, s =>
    .ok ({ s with commits := s.commits ++ [Commit.mk fromBlock toBlock roots] }.put i .lost)
  | .wait roots, .ok, s =>
    let stats := { s.stats with commitsSubmitted := s.stats.commitsSubmitted + 1 }
    .ok ({ s with commits := s.commits ++ [Commit.mk fromBlock toBlock roots], stats := stats }.put i
      (.inRound fromBlock toBlock .confirmed))
  | .wait roots, .lost, s =>
    .ok ({ s with commits := s.commits ++ [Commit.mk fromBlock toBlock roots] }.put i .lost)
  | .confirmed, .ok, s => .ok ({ s with lastProcessedBlock := toBlock }.put i .returned)
  -- the steps back to a caller involve no remote call and cannot fail
  | .scanned _, _, _ => .error ()
  | .proven _, _, _ => .error ()
  | .confirmed, _, _ => .error ()
  | _, .failed, s => .ok (s.put i .rejected)
  | _, _, _ => .error ()

/-- The segment of invocation `i` after an answer.  The height it gets is one the chain
has reached, possibly a stale one. -/
def segment (i : Nat) : Invocation → Answer → State → Except Unit State
  | .getBlockNumber, .number currentBlock, s =>
    if currentBlock ≤ s.head then
      if currentBlock ≤ s.lastProcessedBlock then .ok (s.put i .returned)
      else .ok (s.put i (.inRound (s.lastProcessedBlock + 1) currentBlock .queryBurned))
    else .error ()
  | .getBlockNumber, .failed, s => .ok (s.put i .rejected)
  | .inRound fromBlock toBlock stage, answer, s => roundSegment w i fromBlock toBlock stage answer s
  | _, _, _ => .error ()

/-! ## §3. The daemon. -/

/-- Chain, timer or answer. -/
inductive Move
  | grow
  | tick
  | resume (i : Nat) (answer : Answer)

/-- One move of chain, timer or event loop; `.error` means that it is not possible now.  The
timer is set after the first call of `poll` is over. -/
def exec : Move → State → Except Unit State
  | .grow, s => .ok { s with head := s.head + 1 }
  | .tick, s =>
    if (s.invocations[0]?.map Invocation.isFinished) = some true then
      .ok { s with invocations := s.invocations ++ [.getBlockNumber] }
    else .error ()
  | .resume i answer, s =>
    match s.invocations[i]? with
    | some p => segment w i p answer s
    | none => .error ()

/-- The events a round carries are those of its blocks. -/
def Carries (fromBlock toBlock : Nat) : Stage → Prop
  | .queryLocked events => events = queryFilter .Burned w.burned fromBlock toBlock
  | .scanned events => events = queryFilter .Burned w.burned fromBlock toBlock
      ++ queryFilter .Locked w.locked fromBlock toBlock
  | _ => True

theorem no_event_of_carries {fromBlock toBlock b : Nat} (h : Carries w fromBlock toBlock (.scanned []))
    (hfrom : fromBlock ≤ b) (hto : b ≤ toBlock) : ¬ w.HasEvent b := by
  obtain ⟨hburned, hlocked⟩ := List.append_eq_nil_iff.mp (Eq.symm h)
  intro hevent
  rcases hevent with hne | hne
  · exact hne (logs_of_queryFilter_nil hburned hfrom hto)
  · exact hne (logs_of_queryFilter_nil hlocked hfrom hto)

/-- What a segment of a round does: the invocation it leaves and the rest of the state. -/
inductive RoundEffect (fromBlock toBlock : Nat) (s : State) : Stage → Invocation → State → Prop
  | advance {stage stage' : Stage} {draws : Nat} {stats : Stats} (hne : stage ≠ .confirmed)
      (hne' : stage' ≠ .confirmed)
      (hcarries : Carries w fromBlock toBlock stage → Carries w fromBlock toBlock stage') :
      RoundEffect fromBlock toBlock s stage (.inRound fromBlock toBlock stage')
        { s with draws := draws, stats := stats }
  | commit {roots : Roots} {stats : Stats} :
      RoundEffect fromBlock toBlock s (.wait roots) (.inRound fromBlock toBlock .confirmed)
        { s with commits := s.commits ++ [Commit.mk fromBlock toBlock roots], stats := stats }
  | empty {stats : Stats} :
      RoundEffect fromBlock toBlock s (.scanned []) .returned
        { s with lastProcessedBlock := toBlock, stats := stats }
  | finish : RoundEffect fromBlock toBlock s .confirmed .returned
      { s with lastProcessedBlock := toBlock }
  | reject {stage : Stage} (hne : stage ≠ .confirmed) :
      RoundEffect fromBlock toBlock s stage .rejected s
  | lose {stage : Stage} {roots : Roots} :
      RoundEffect fromBlock toBlock s stage .lost
        { s with commits := s.commits ++ [Commit.mk fromBlock toBlock roots] }

/-- **What one move can do.** -/
inductive Effect (s : State) : Move → State → Prop
  | grow : Effect s .grow { s with head := s.head + 1 }
  | tick : Effect s .tick { s with invocations := s.invocations ++ [.getBlockNumber] }
  | skip {i : Nat} {answer : Answer} {p : Invocation}
      (hi : s.invocations[i]? = some .getBlockNumber)
      (hp : p = .returned ∨ p = .rejected) : Effect s (.resume i answer) (s.put i p)
  | enter {i currentBlock : Nat} (hi : s.invocations[i]? = some .getBlockNumber)
      (hnew : s.lastProcessedBlock < currentBlock) (hhead : currentBlock ≤ s.head) :
      Effect s (.resume i (.number currentBlock))
        (s.put i (.inRound (s.lastProcessedBlock + 1) currentBlock .queryBurned))
  | round {i fromBlock toBlock : Nat} {answer : Answer} {stage : Stage} {p : Invocation}
      {s' : State} (hi : s.invocations[i]? = some (.inRound fromBlock toBlock stage))
      (hround : RoundEffect w fromBlock toBlock s stage p s') :
      Effect s (.resume i answer) (s'.put i p)

variable {w}

/-- What one segment does. -/
theorem roundSegment_effect {i fromBlock toBlock : Nat} {stage : Stage} {answer : Answer}
    {s s' : State} (h : roundSegment w i fromBlock toBlock stage answer s = .ok s') :
    ∃ p s₁, RoundEffect w fromBlock toBlock s stage p s₁ ∧ s' = s₁.put i p := by
  cases answer with
  | number n => cases stage <;> cases h
  | failed =>
    cases stage <;> first
      | exact ⟨_, _, .reject (by nofun), (Except.ok.inj h).symm⟩
      | cases h
  | lost =>
    cases stage <;> first
      | exact ⟨_, _, .lose, (Except.ok.inj h).symm⟩
      | cases h
  | ok =>
    cases stage with
    | queryBurned =>
      exact ⟨.inRound fromBlock toBlock (.queryLocked _), s,
        .advance (by nofun) (by nofun) (fun _ => rfl), (Except.ok.inj h).symm⟩
    | queryLocked events =>
      refine ⟨.inRound fromBlock toBlock (.scanned _), s,
        .advance (by nofun) (by nofun) ?_, (Except.ok.inj h).symm⟩
      intro hevents
      show events ++ _ = _
      rw [show events = _ from hevents]
    | scanned events =>
      unfold roundSegment at h
      dsimp only at h
      split at h
      case isTrue hzero =>
        obtain rfl := List.length_eq_zero_iff.mp hzero
        exact ⟨_, _, .empty, (Except.ok.inj h).symm⟩
      case isFalse =>
        exact ⟨.inRound fromBlock toBlock .getOldHeader, _,
          .advance (by nofun) (by nofun) (fun _ => trivial), (Except.ok.inj h).symm⟩
    | getOldHeader =>
      exact ⟨.inRound fromBlock toBlock .getNewHeader, s,
        .advance (by nofun) (by nofun) (fun _ => trivial), (Except.ok.inj h).symm⟩
    | getNewHeader =>
      exact ⟨.inRound fromBlock toBlock (.generateProof _), _,
        .advance (by nofun) (by nofun) (fun _ => trivial), (Except.ok.inj h).symm⟩
    | generateProof roots =>
      exact ⟨.inRound fromBlock toBlock (.proven roots), _,
        .advance (by nofun) (by nofun) (fun _ => trivial), (Except.ok.inj h).symm⟩
    | proven roots =>
      exact ⟨.inRound fromBlock toBlock (.submitCommit roots), s,
        .advance (by nofun) (by nofun) (fun _ => trivial), (Except.ok.inj h).symm⟩
    | submitCommit roots =>
      exact ⟨.inRound fromBlock toBlock (.wait roots), s,
        .advance (by nofun) (by nofun) (fun _ => trivial), (Except.ok.inj h).symm⟩
    | wait roots => exact ⟨_, _, .commit, (Except.ok.inj h).symm⟩
    | confirmed => exact ⟨_, _, .finish, (Except.ok.inj h).symm⟩

/-- What one move does. -/
theorem exec_effect {move : Move} {s s' : State} (h : exec w move s = .ok s') :
    Effect w s move s' := by
  cases move with
  | grow =>
    obtain rfl := Except.ok.inj h
    exact .grow
  | tick =>
    unfold exec at h
    dsimp only at h
    split at h
    case isTrue =>
      obtain rfl := Except.ok.inj h
      exact .tick
    case isFalse => cases h
  | resume i answer =>
    unfold exec at h
    dsimp only at h
    split at h
    case h_2 => cases h
    case h_1 p hi =>
      cases p with
      | getBlockNumber =>
        cases answer with
        | number currentBlock =>
          unfold segment at h
          dsimp only at h
          split at h
          case isFalse => cases h
          case isTrue hknown =>
            split at h
            case isTrue =>
              obtain rfl := Except.ok.inj h
              exact .skip hi (.inl rfl)
            case isFalse hnew =>
              obtain rfl := Except.ok.inj h
              exact .enter hi (by omega) hknown
        | failed =>
          obtain rfl := Except.ok.inj h
          exact .skip hi (.inr rfl)
        | ok | lost => cases h
      | inRound fromBlock toBlock stage =>
        obtain ⟨p, s₁, hround, rfl⟩ := roundSegment_effect h
        exact .round hi hround
      | returned | rejected | lost => cases h

/-! ## §4. One round at a time. -/

/-- A call that finds new blocks finds no other call in its round. -/
def Exclusive (s : State) : Move → Prop
  | .resume _ (.number currentBlock) =>
    s.lastProcessedBlock < currentBlock → ∀ p ∈ s.invocations, p.isInRound = false
  | _ => True

/-- The number of commits made for a range with block `b` in it. -/
def State.covering (s : State) (b : Nat) : Nat :=
  s.commits.countP fun c => c.fromBlock ≤ b ∧ b ≤ c.toBlock

/-- Invocation `i` is in a round. -/
abbrev State.RoundAt (s : State) (i fromBlock toBlock : Nat) (stage : Stage) : Prop :=
  s.invocations[i]? = some (Invocation.inRound fromBlock toBlock stage)

/-- Block `b` is behind the cursor, or in a round whose commit has just been confirmed. -/
def State.Reached (s : State) (b : Nat) : Prop :=
  b ≤ s.lastProcessedBlock
    ∨ ∃ i fromBlock toBlock, s.RoundAt i fromBlock toBlock .confirmed ∧ b ≤ toBlock

/-- **The invariant**: one round, which starts behind the cursor, and one commit for every
block with an event that has been reached. -/
structure RelayInv (w : World) (blockA : Nat) (s : State) : Prop where
  start : blockA ≤ s.lastProcessedBlock
  head : s.lastProcessedBlock ≤ s.head
  round : ∀ {i fromBlock toBlock stage}, s.RoundAt i fromBlock toBlock stage →
    fromBlock = s.lastProcessedBlock + 1 ∧ s.lastProcessedBlock < toBlock ∧ toBlock ≤ s.head
      ∧ Carries w fromBlock toBlock stage
  alone : ∀ {i j fromBlock toBlock stage fromBlock' toBlock' stage'},
    s.RoundAt i fromBlock toBlock stage → s.RoundAt j fromBlock' toBlock' stage' → j = i
  counted : .lost ∉ s.invocations → ∀ b, blockA < b → w.HasEvent b →
    (s.Reached b → s.covering b = 1) ∧ (¬ s.Reached b → s.covering b = 0)

theorem get_put {s : State} {i j : Nat} {p q : Invocation}
    (h : (s.put i p).invocations[j]? = some q) :
    (j = i ∧ q = p) ∨ (j ≠ i ∧ s.invocations[j]? = some q) := by
  have h : (s.invocations.set i p)[j]? = some q := h
  rw [List.getElem?_set] at h
  by_cases hij : i = j
  · rw [if_pos hij] at h
    split at h
    · exact .inl ⟨hij.symm, (Option.some.inj h).symm⟩
    · cases h
  · rw [if_neg hij] at h
    exact .inr ⟨Ne.symm hij, h⟩

theorem get_put_of_ne {s : State} {i j : Nat} (p : Invocation) (h : j ≠ i) :
    (s.put i p).invocations[j]? = s.invocations[j]? := by
  show (s.invocations.set i p)[j]? = _
  rw [List.getElem?_set_ne (Ne.symm h)]

theorem get_put_self {s : State} {i : Nat} {q : Invocation} (p : Invocation)
    (h : s.invocations[i]? = some q) : (s.put i p).invocations[i]? = some p := by
  obtain ⟨hi, -⟩ := List.getElem?_eq_some_iff.mp h
  show (s.invocations.set i p)[i]? = _
  rw [List.getElem?_set_self hi]

theorem lost_of_put {s : State} {i : Nat} {p q : Invocation} (hi : s.invocations[i]? = some q)
    (hq : q ≠ .lost) (h : .lost ∉ (s.put i p).invocations) : .lost ∉ s.invocations := by
  intro hmem
  obtain ⟨j, hj⟩ := List.mem_iff_getElem?.mp hmem
  have hne : j ≠ i := by
    intro hij
    rw [hij, hi] at hj
    exact hq (Option.some.inj hj)
  exact h (List.mem_iff_getElem?.mpr ⟨j, (get_put_of_ne p hne).trans hj⟩)

/-- What has been reached depends on the confirmed rounds only. -/
theorem reached_put {s : State} {i b : Nat} {p q : Invocation} (hi : s.invocations[i]? = some q)
    (hq : ∀ fromBlock toBlock, q ≠ .inRound fromBlock toBlock .confirmed)
    (hp : ∀ fromBlock toBlock, p ≠ .inRound fromBlock toBlock .confirmed) :
    (s.put i p).Reached b ↔ s.Reached b := by
  refine or_congr Iff.rfl ?_
  constructor
  · intro ⟨j, fromBlock, toBlock, hj, hb⟩
    rcases get_put hj with ⟨-, hsame⟩ | ⟨-, hj⟩
    · exact absurd hsame.symm (hp fromBlock toBlock)
    · exact ⟨j, fromBlock, toBlock, hj, hb⟩
  · intro ⟨j, fromBlock, toBlock, hj, hb⟩
    have hne : j ≠ i := by
      intro hij
      rw [hij, State.RoundAt, hi] at hj
      exact hq fromBlock toBlock (Option.some.inj hj)
    exact ⟨j, fromBlock, toBlock, (get_put_of_ne p hne).trans hj, hb⟩

/-- In a round, it is the cursor or the end of that round. -/
theorem RelayInv.reached_iff {blockA : Nat} {s : State} (hs : RelayInv w blockA s)
    {i fromBlock toBlock : Nat} {stage : Stage} (hi : s.RoundAt i fromBlock toBlock stage) (b : Nat) :
    s.Reached b ↔ b ≤ s.lastProcessedBlock ∨ (stage = .confirmed ∧ b ≤ toBlock) := by
  refine or_congr Iff.rfl ?_
  constructor
  · intro ⟨j, fromBlock', toBlock', hj, hb⟩
    obtain rfl := hs.alone hi hj
    obtain ⟨-, rfl, rfl⟩ := Invocation.inRound.inj (Option.some.inj (hi.symm.trans hj))
    exact ⟨rfl, hb⟩
  · intro ⟨hstage, hb⟩
    subst hstage
    exact ⟨i, fromBlock, toBlock, hi, hb⟩

/-- A move that confirms nothing and leaves the cursor where it is. -/
theorem relayInv_put {blockA : Nat} {s : State} (hs : RelayInv w blockA s) {i : Nat}
    {p q : Invocation} (hi : s.invocations[i]? = some q) (hlost : q ≠ .lost)
    (hq : ∀ fromBlock toBlock, q ≠ .inRound fromBlock toBlock .confirmed)
    (hp : ∀ fromBlock toBlock, p ≠ .inRound fromBlock toBlock .confirmed)
    (hround : ∀ fromBlock toBlock stage, p = .inRound fromBlock toBlock stage →
      (fromBlock = s.lastProcessedBlock + 1 ∧ s.lastProcessedBlock < toBlock ∧ toBlock ≤ s.head
        ∧ Carries w fromBlock toBlock stage)
      ∧ ∀ j fromBlock' toBlock' stage', s.RoundAt j fromBlock' toBlock' stage' → j = i) :
    RelayInv w blockA (s.put i p) := by
  refine ⟨hs.start, hs.head, ?_, ?_, ?_⟩
  · intro j fromBlock toBlock stage hj
    rcases get_put hj with ⟨-, hsame⟩ | ⟨-, hj⟩
    · exact (hround _ _ _ hsame.symm).1
    · exact hs.round hj
  · intro j k fromBlock toBlock stage fromBlock' toBlock' stage' hj hk
    -- the new round, if it is one, is the only one
    rcases get_put hj with ⟨rfl, hsame⟩ | ⟨hji, hj⟩
    · rcases get_put hk with ⟨hki, -⟩ | ⟨-, hk⟩
      · exact hki
      · exact (hround _ _ _ hsame.symm).2 k _ _ _ hk
    · rcases get_put hk with ⟨-, hsame⟩ | ⟨-, hk⟩
      · exact absurd ((hround _ _ _ hsame.symm).2 j _ _ _ hj) hji
      · exact hs.alone hj hk
  · intro hnone b hb hevent
    rw [reached_put hi hq hp]
    exact hs.counted (lost_of_put hi hlost hnone) b hb hevent

/-- After the end of a round there is none. -/
theorem no_round_of_put {blockA : Nat} {s s₁ : State} (hs : RelayInv w blockA s)
    {i fromBlock toBlock : Nat} {stage : Stage} (hi : s.RoundAt i fromBlock toBlock stage)
    (hsame : s₁.invocations = s.invocations) {p : Invocation} (hp : p.isInRound = false)
    {j fromBlock' toBlock' : Nat} {stage' : Stage} :
    ¬ (s₁.put i p).RoundAt j fromBlock' toBlock' stage' := by
  intro hj
  rcases get_put hj with ⟨-, rfl⟩ | ⟨hji, hj⟩
  · cases hp
  · rw [hsame] at hj
    exact hji (hs.alone hi hj)

/-- The round is over and the cursor moves to its end: each of its blocks with an event has
its commit. -/
theorem relayInv_finish {blockA : Nat} {s : State} (hs : RelayInv w blockA s)
    {i fromBlock toBlock : Nat} {stage : Stage} (hi : s.RoundAt i fromBlock toBlock stage)
    {stats : Stats} (hdone : stage = .confirmed
      ∨ ∀ b, fromBlock ≤ b → b ≤ toBlock → ¬ w.HasEvent b) :
    RelayInv w blockA
      ({ s with lastProcessedBlock := toBlock, stats := stats }.put i .returned) := by
  obtain ⟨hfrom, hto, hhead, -⟩ := hs.round hi
  have hstart := hs.start
  refine ⟨?_, hhead, fun hj => absurd hj (no_round_of_put hs hi rfl rfl),
    fun hj => absurd hj (no_round_of_put hs hi rfl rfl), ?_⟩
  · show blockA ≤ toBlock
    omega
  · intro hnone b hb hevent
    obtain ⟨hone, hzero⟩ := hs.counted (lost_of_put hi (by nofun) hnone) b hb hevent
    rw [hs.reached_iff hi] at hone hzero
    have hafter : ({ s with lastProcessedBlock := toBlock, stats := stats }.put i
        .returned).Reached b ↔ b ≤ toBlock := by
      refine or_iff_left ?_
      intro ⟨j, _, _, hj, _⟩
      exact no_round_of_put hs hi rfl rfl hj
    rw [hafter]
    constructor
    · intro hbto
      rcases hdone with rfl | hquiet
      · exact hone (.inr ⟨rfl, hbto⟩)
      · -- a block without events is not asked about
        by_cases hbehind : b ≤ s.lastProcessedBlock
        · exact hone (.inl hbehind)
        · exact absurd hevent (hquiet b (by omega) hbto)
    · intro hbto
      refine hzero ?_
      omega

/-- The commit of the round is confirmed. -/
theorem relayInv_commit {blockA : Nat} {s : State} (hs : RelayInv w blockA s)
    {i fromBlock toBlock : Nat} {roots : Roots} (hi : s.RoundAt i fromBlock toBlock (.wait roots))
    {stats : Stats} :
    RelayInv w blockA
      ({ s with commits := s.commits ++ [Commit.mk fromBlock toBlock roots], stats := stats }.put i
        (.inRound fromBlock toBlock .confirmed)) := by
  obtain ⟨hfrom, hto, hhead, -⟩ := hs.round hi
  have honly : ∀ {j fromBlock' toBlock' stage'},
      ({ s with commits := s.commits ++ [Commit.mk fromBlock toBlock roots], stats := stats }.put i
        (.inRound fromBlock toBlock .confirmed)).RoundAt j fromBlock' toBlock' stage' →
      j = i ∧ fromBlock' = fromBlock ∧ toBlock' = toBlock ∧ stage' = .confirmed := by
    intro j fromBlock' toBlock' stage' hj
    rcases get_put hj with ⟨hji, hsame⟩ | ⟨hji, hj⟩
    · exact ⟨hji, Invocation.inRound.inj hsame⟩
    · exact absurd (hs.alone hi hj) hji
  refine ⟨hs.start, hs.head, ?_, fun hj hk => (honly hk).1.trans (honly hj).1.symm, ?_⟩
  · intro j fromBlock' toBlock' stage' hj
    obtain ⟨-, rfl, rfl, rfl⟩ := honly hj
    exact ⟨hfrom, hto, hhead, trivial⟩
  · intro hnone b hb hevent
    obtain ⟨hone, hzero⟩ := hs.counted (lost_of_put hi (by nofun) hnone) b hb hevent
    rw [hs.reached_iff hi] at hone hzero
    have hafter :
        ({ s with commits := s.commits ++ [Commit.mk fromBlock toBlock roots], stats := stats }.put i
          (.inRound fromBlock toBlock .confirmed)).Reached b
        ↔ b ≤ s.lastProcessedBlock ∨ b ≤ toBlock := by
      refine or_congr Iff.rfl ?_
      constructor
      · intro ⟨j, fromBlock', toBlock', hj, hbto⟩
        rw [← (honly hj).2.2.1]
        exact hbto
      · intro hbto
        exact ⟨i, fromBlock, toBlock, get_put_self _ hi, hbto⟩
    rw [hafter]
    show (_ → (s.commits ++ [Commit.mk fromBlock toBlock roots]).countP _ = 1)
      ∧ (_ → (s.commits ++ [Commit.mk fromBlock toBlock roots]).countP _ = 0)
    rw [List.countP_append, List.countP_singleton]
    show (_ → s.covering b + _ = 1) ∧ (_ → s.covering b + _ = 0)
    -- the new commit covers the blocks from the cursor on, which had none
    by_cases hbehind : b ≤ s.lastProcessedBlock
    · rw [hone (.inl hbehind), if_neg (by simp; omega)]
      exact ⟨fun _ => rfl, fun h => absurd (.inl hbehind) h⟩
    · rw [hzero (by simp; omega)]
      by_cases hbto : b ≤ toBlock
      · rw [if_pos (by simp; omega)]
        exact ⟨fun _ => rfl, fun h => absurd (.inr hbto) h⟩
      · rw [if_neg (by simp; omega)]
        exact ⟨fun h => by omega, fun _ => rfl⟩

/-- Its answer is lost: nothing is counted any more, the cursor stays. -/
theorem relayInv_lose {blockA : Nat} {s : State} (hs : RelayInv w blockA s)
    {i fromBlock toBlock : Nat} {stage : Stage} (hi : s.RoundAt i fromBlock toBlock stage)
    {commits : List Commit} :
    RelayInv w blockA ({ s with commits := commits }.put i .lost) := by
  refine ⟨hs.start, hs.head, fun hj => absurd hj (no_round_of_put hs hi rfl rfl),
    fun hj => absurd hj (no_round_of_put hs hi rfl rfl), ?_⟩
  intro hnone
  exact absurd (List.mem_iff_getElem?.mpr ⟨i, get_put_self .lost hi⟩) hnone

/-- A tick keeps it. -/
theorem relayInv_tick {blockA : Nat} {s : State} (hs : RelayInv w blockA s) :
    RelayInv w blockA { s with invocations := s.invocations ++ [.getBlockNumber] } := by
  have hold : ∀ {j fromBlock toBlock stage},
      ({ s with invocations := s.invocations ++ [.getBlockNumber] } : State).RoundAt j
        fromBlock toBlock stage ↔ s.RoundAt j fromBlock toBlock stage := by
    intro j fromBlock toBlock stage
    show (s.invocations ++ [.getBlockNumber])[j]? = _ ↔ s.invocations[j]? = _
    rw [List.getElem?_append]
    split
    · rfl
    · rename_i hlen
      rw [List.getElem?_eq_none (Nat.le_of_not_lt hlen), List.getElem?_singleton]
      split <;> simp
  refine ⟨hs.start, hs.head, fun hj => hs.round (hold.mp hj),
    fun hj hk => hs.alone (hold.mp hj) (hold.mp hk), ?_⟩
  intro hnone b hb hevent
  have hreached : ({ s with invocations := s.invocations ++ [.getBlockNumber] } : State).Reached b
      ↔ s.Reached b := by
    refine or_congr Iff.rfl ?_
    simp only [hold]
  rw [hreached]
  exact hs.counted (fun hmem => hnone (List.mem_append_left _ hmem)) b hb hevent

/-- **One move keeps the invariant**, if it enters no second round. -/
theorem relayInv_step {blockA : Nat} (s : State) (move : Move) (s' : State)
    (hexcl : Exclusive s move) (hs : RelayInv w blockA s) (h : exec w move s = .ok s') :
    RelayInv w blockA s' := by
  cases exec_effect h with
  | grow =>
    have hhead := hs.head
    refine ⟨hs.start, ?_, ?_, hs.alone, hs.counted⟩
    · show s.lastProcessedBlock ≤ s.head + 1
      omega
    · intro i fromBlock toBlock stage hi
      obtain ⟨hfrom, hto, hhead, hcarries⟩ := hs.round hi
      refine ⟨hfrom, hto, ?_, hcarries⟩
      show toBlock ≤ s.head + 1
      omega
  | tick => exact relayInv_tick hs
  | skip hi hp =>
    refine relayInv_put hs hi (by nofun) (by nofun) ?_ ?_
    · rcases hp with rfl | rfl <;> nofun
    · rcases hp with rfl | rfl <;> nofun
  | enter hi hnew hhead =>
    refine relayInv_put hs hi (by nofun) (by nofun) (by nofun) ?_
    intro fromBlock toBlock stage hround
    obtain ⟨rfl, rfl, rfl⟩ := Invocation.inRound.inj hround
    refine ⟨⟨rfl, hnew, hhead, trivial⟩, ?_⟩
    intro j fromBlock' toBlock' stage' hj
    exact absurd (hexcl hnew _ (List.mem_iff_getElem?.mpr ⟨j, hj⟩)) (by nofun)
  | round hi hround =>
    obtain ⟨hfrom, hto, hhead, hcarried⟩ := hs.round hi
    cases hround with
    | @advance stage stage' draws stats hne hne' hcarries =>
      have hs₁ : RelayInv w blockA { s with draws := draws, stats := stats } :=
        ⟨hs.start, hs.head, hs.round, hs.alone, hs.counted⟩
      refine relayInv_put hs₁ hi (by nofun) ?_ ?_ ?_
      · intro _ _ hsame
        exact hne (Invocation.inRound.inj hsame).2.2
      · intro _ _ hsame
        exact hne' (Invocation.inRound.inj hsame).2.2
      · intro fromBlock' toBlock' stage'' hsame
        obtain ⟨rfl, rfl, rfl⟩ := Invocation.inRound.inj hsame
        exact ⟨⟨hfrom, hto, hhead, hcarries hcarried⟩, fun j _ _ _ hj => hs.alone hi hj⟩
    | commit => exact relayInv_commit hs hi
    | empty => exact relayInv_finish hs hi (.inr fun b => no_event_of_carries w hcarried)
    | finish => exact relayInv_finish hs hi (.inl rfl)
    | reject hne =>
      refine relayInv_put hs hi (by nofun) ?_ (by nofun) (by nofun)
      intro _ _ hsame
      exact hne (Invocation.inRound.inj hsame).2.2
    | lose => exact relayInv_lose hs hi

/-- Nor does the cursor move back. -/
theorem cursor_step {blockA : Nat} {s s' : State} {move : Move} (hs : RelayInv w blockA s)
    (h : exec w move s = .ok s') : s.lastProcessedBlock ≤ s'.lastProcessedBlock := by
  cases exec_effect h with
  | grow | tick | skip | enter => exact Nat.le_refl _
  | round hi hround =>
    obtain ⟨-, hto, -⟩ := hs.round hi
    cases hround with
    | advance | commit | reject | lose => exact Nat.le_refl _
    | empty | finish => exact Nat.le_of_lt hto

/-- The invariant after boot. -/
theorem relayInv_boot (w : World) (blockA grown : Nat) : RelayInv w blockA (boot blockA grown) := by
  have hnone : ∀ {i fromBlock toBlock stage},
      ¬ (boot blockA grown).RoundAt i fromBlock toBlock stage := by
    intro i fromBlock toBlock stage hi
    have hmem : Invocation.inRound fromBlock toBlock stage ∈ (boot blockA grown).invocations :=
      List.mem_iff_getElem?.mpr ⟨i, hi⟩
    cases List.mem_singleton.mp hmem
  refine ⟨Nat.le_refl _, Nat.le_add_right _ _, fun hi => absurd hi hnone,
    fun hi => absurd hi hnone, ?_⟩
  intro _ b hb _
  refine ⟨?_, fun _ => rfl⟩
  intro hreached
  rcases hreached with hle | ⟨i, _, _, hi, -⟩
  · exact absurd hle (Nat.not_le.mpr hb)
  · exact absurd hi hnone

/-! ## §5. Every event once. -/

/-- Nothing runs, and every confirmed commit is known to the relay. -/
def Settled (s : State) : Prop := ∀ p ∈ s.invocations, p = .returned ∨ p = .rejected

/-- **Exclusive rounds**: the cursor never decreases along the run and, whenever it is
settled, a block with an event has one commit if it is behind the cursor and none otherwise. -/
theorem relay_exactly_once (w : World) (blockA grown : Nat) (moves : List Move)
    (hexcl : StepsMeet (exec w) Exclusive (boot blockA grown) moves) :
    (∀ k, (run (exec w) (boot blockA grown) (moves.take k)).lastProcessedBlock
        ≤ (run (exec w) (boot blockA grown) moves).lastProcessedBlock)
      ∧ (Settled (run (exec w) (boot blockA grown) moves) → ∀ b, blockA < b → w.HasEvent b →
          (run (exec w) (boot blockA grown) moves).covering b
            = if b ≤ (run (exec w) (boot blockA grown) moves).lastProcessedBlock then 1 else 0) := by
  have hinv : ∀ k, RelayInv w blockA (run (exec w) (boot blockA grown) (moves.take k)) :=
    fun k => run_invariant_of relayInv_step _ _ (relayInv_boot w blockA grown)
      (stepsMeet_take hexcl k)
  constructor
  · intro k
    -- from the state after k moves on, the cursor stays above its value there
    have hrest := hexcl
    rw [← List.take_append_drop k moves, stepsMeet_append] at hrest
    have hsplit : run (exec w) (boot blockA grown) moves
        = run (exec w) (run (exec w) (boot blockA grown) (moves.take k)) (moves.drop k) := by
      rw [← run_append, List.take_append_drop]
    rw [hsplit]
    refine (run_invariant_of (C := Exclusive) (P := fun s => RelayInv w blockA s
      ∧ (run (exec w) (boot blockA grown) (moves.take k)).lastProcessedBlock ≤ s.lastProcessedBlock)
      ?_ _ _ ⟨hinv k, Nat.le_refl _⟩ hrest.2).2
    intro s move s' hC ⟨hs, hle⟩ h
    exact ⟨relayInv_step s move s' hC hs h, hle.trans (cursor_step hs h)⟩
  · intro hsettled b hb hevent
    have hs := hinv moves.length
    rw [List.take_length] at hs
    have hnone : .lost ∉ (run (exec w) (boot blockA grown) moves).invocations := by
      intro hmem
      rcases hsettled _ hmem with h | h <;> cases h
    have hreached : (run (exec w) (boot blockA grown) moves).Reached b
        ↔ b ≤ (run (exec w) (boot blockA grown) moves).lastProcessedBlock := by
      refine or_iff_left ?_
      intro ⟨i, _, _, hi, _⟩
      rcases hsettled _ (List.mem_iff_getElem?.mpr ⟨i, hi⟩) with h | h <;> cases h
    obtain ⟨hone, hzero⟩ := hs.counted hnone b hb hevent
    rw [hreached] at hone hzero
    split
    case isTrue hle => exact hone hle
    case isFalse hgt => exact hzero hgt

/-- Chain A with one burn, in block 1. -/
def oneBurn : World := ⟨fun b => if b = 1 then [7] else [], fun _ => [], fun n => BitVec.ofNat 256 n⟩

/-- Every segment of the round of invocation `i`. -/
def wholeRound (i : Nat) : List Move := List.replicate 10 (.resume i .ok)

/-- The first poll finds nothing; a block is added, and the next tick's call commits it. -/
def oneTick : List Move :=
  [.resume 0 (.number 0), .grow, .tick, .resume 1 (.number 1)] ++ wholeRound 1

theorem oneTick_exactly_once :
    (run (exec oneBurn) (boot 0 0) oneTick).covering 1 = 1 := by
  refine ((relay_exactly_once oneBurn 0 0 oneTick ?_).2 ?_ 1 (by decide) (.inl (by decide))).trans ?_
  · unfold oneTick wholeRound
    simp [StepsMeet, Exclusive]
    decide
  · unfold Settled
    decide
  · decide

/-- **Overlapping rounds**: a burn committed twice, and a cursor that moves back. -/
theorem relay_overlap :
    (¬ ∀ (w : World) (blockA grown : Nat) (moves : List Move),
        Settled (run (exec w) (boot blockA grown) moves) → ∀ b, blockA < b → w.HasEvent b →
        b ≤ (run (exec w) (boot blockA grown) moves).lastProcessedBlock →
        (run (exec w) (boot blockA grown) moves).covering b = 1)
      ∧ ¬ ∀ (w : World) (blockA grown : Nat) (moves : List Move) (k : Nat),
        (run (exec w) (boot blockA grown) (moves.take k)).lastProcessedBlock
          ≤ (run (exec w) (boot blockA grown) moves).lastProcessedBlock := by
  constructor
  · intro hall
    have htwice := hall oneBurn 0 0 ([.resume 0 (.number 0), .grow, .tick, .tick,
      .resume 1 (.number 1), .resume 2 (.number 1)] ++ wholeRound 1 ++ wholeRound 2)
      (by unfold Settled; decide) 1 (by decide) (.inl (by decide)) (by decide)
    revert htwice
    decide
  · intro hall
    -- the second call scans up to block 2 and ends first
    have hback := hall ⟨fun _ => [], fun _ => [], fun _ => 0⟩ 0 0 ([.resume 0 (.number 0), .grow,
      .tick, .resume 1 (.number 1), .grow, .tick, .resume 2 (.number 2)] ++ wholeRound 2
      ++ wholeRound 1) 17
    revert hback
    decide

end HZKA.Relay.Daemon
