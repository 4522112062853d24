/-
  HZKA.Lib.Merkle
  ────────────
  **PERFECT BINARY HASH TREES** over an arbitrary leaf hash `hl : α → δ` and node
  hash `hn : δ × δ → δ`.

  Paths run from the root to the leaf, one step `(b, s)` per level: go right iff
  `b`, with sibling digest `s`.  No hash is assumed injective; each binding
  theorem ends in "or two different pairs THAT WERE HASHED collide" (`Collide`).

    • `getElem?_leaves`   — a position read as a binary number is an index of the leaves;
    • `recompute_opening` — the true opening of a position recomputes the root;
    • `opening_sound`     — a path that recomputes the root is the true opening of
                            its position, or collides with a node of the tree;
    • `root_inj`          — equal roots, equal trees, or a collision;
    • `root_set_set`      — the root after two writes, from the two old openings
                            alone (`recompute₂`);
    • `total_set`         — a sum over the leaves after a write.
-/
import Mathlib.Algebra.Ring.Nat
import Mathlib.Data.List.Basic
import Mathlib.Tactic.Common

namespace HZKA.Lib.Merkle

/-! ## §1. Trees and positions. -/

/-- A perfect binary tree of height `n`. -/
inductive Tree (α : Type) : Nat → Type
  | leaf (a : α) : Tree α 0
  | node {n : Nat} (l r : Tree α n) : Tree α (n + 1)

namespace Tree

variable {α : Type}

/-- The leaf at a position, read from the root down (`true` is right). -/
def get : {n : Nat} → Tree α n → List Bool → α
  | _, leaf a, _ => a
  | _, node _ r, true :: bs => r.get bs
  | _, node l _, false :: bs => l.get bs
  | _, node l _, [] => l.get []

/-- Replace the leaf at a position. -/
def set : {n : Nat} → Tree α n → List Bool → α → Tree α n
  | _, leaf _, _, a => leaf a
  | _, node l r, true :: bs, a => node l (r.set bs a)
  | _, node l r, false :: bs, a => node (l.set bs a) r
  | _, node l r, [], a => node (l.set [] a) r

/-- The leaves from the left. -/
def leaves : {n : Nat} → Tree α n → List α
  | _, leaf a => [a]
  | _, node l r => l.leaves ++ r.leaves

/-- The sum of `f` over the leaves. -/
def total (f : α → Nat) : {n : Nat} → Tree α n → Nat
  | _, leaf a => f a
  | _, node l r => l.total f + r.total f

theorem get_mem_leaves : ∀ {n : Nat} (t : Tree α n) (bs : List Bool), t.get bs ∈ t.leaves
  | _, leaf _, _ => List.mem_singleton.mpr rfl
  | _, node _ r, true :: bs => List.mem_append_right _ (get_mem_leaves r bs)
  | _, node l _, false :: bs => List.mem_append_left _ (get_mem_leaves l bs)
  | _, node l _, [] => List.mem_append_left _ (get_mem_leaves l [])

/-- All positions are leaves. -/
theorem leaves_length : ∀ {n : Nat} (t : Tree α n), t.leaves.length = 2 ^ n
  | _, leaf _ => rfl
  | n + 1, node l r => by
    show (l.leaves ++ r.leaves).length = 2 ^ (n + 1)
    rw [List.length_append, leaves_length l, leaves_length r, Nat.pow_succ, Nat.mul_two]

/-- **A position is an index**: the last step is its lowest bit. -/
theorem getElem?_leaves : ∀ {n : Nat} (t : Tree α n) (bs : List Bool) (index : Nat),
    bs.length = n → index < 2 ^ n → (∀ i, i < n → bs.reverse[i]? = some (index.testBit i)) →
      t.leaves[index]? = some (t.get bs)
  | _, leaf _, _, index, _, hlt, _ => by
    have hzero : index = 0 := by omega
    rw [hzero]
    rfl
  | n + 1, node l r, b :: bs, index, hlen, hlt, hbits => by
    have hlen' : bs.length = n := Nat.succ.inj hlen
    have hrest : ∀ i, i < n → bs.reverse[i]? = some (index.testBit i) := by
      intro i hi
      have h := hbits i (by omega)
      rw [List.reverse_cons, List.getElem?_append_left (by rw [List.length_reverse]; omega)] at h
      exact h
    have htop : index.testBit n = b := by
      have h := hbits n (by omega)
      rw [List.reverse_cons, List.getElem?_append_right (by rw [List.length_reverse]; omega),
        List.length_reverse, hlen', Nat.sub_self] at h
      exact (Option.some.inj h).symm
    have hleft := leaves_length l
    rw [Nat.pow_succ] at hlt
    -- the highest bit says in which half the leaf is
    rcases Nat.lt_or_ge index (2 ^ n) with hsmall | hlarge
    · rw [Nat.testBit_lt_two_pow hsmall] at htop
      subst htop
      show (l.leaves ++ r.leaves)[index]? = some (l.get bs)
      rw [List.getElem?_append_left (by omega)]
      exact getElem?_leaves l bs index hlen' hsmall hrest
    · obtain ⟨j, rfl⟩ := Nat.exists_eq_add_of_le hlarge
      have hj : j < 2 ^ n := by omega
      rw [Nat.testBit_two_pow_add_eq, Nat.testBit_lt_two_pow hj] at htop
      subst htop
      show (l.leaves ++ r.leaves)[2 ^ n + j]? = some (r.get bs)
      rw [List.getElem?_append_right (by omega), hleft, Nat.add_sub_cancel_left]
      refine getElem?_leaves r bs j hlen' hj ?_
      intro i hi
      rw [hrest i hi, Nat.testBit_two_pow_add_gt hi]

/-- What was written is read. -/
theorem get_set_self : ∀ {n : Nat} (t : Tree α n) (bs : List Bool) (a : α),
    (t.set bs a).get bs = a
  | _, leaf _, _, _ => rfl
  | _, node _ r, true :: bs, a => get_set_self r bs a
  | _, node l _, false :: bs, a => get_set_self l bs a
  | _, node l _, [], a => get_set_self l [] a

/-- A write leaves the other positions alone. -/
theorem get_set_of_ne : ∀ {n : Nat} (t : Tree α n) (bs cs : List Bool) (a : α),
    bs.length = n → cs.length = n → bs ≠ cs → (t.set bs a).get cs = t.get cs
  | _, leaf _, bs, cs, _, hb, hc, hne => by
    rw [List.length_eq_zero_iff] at hb hc
    exact absurd (hb.trans hc.symm) hne
  | _, node l r, b :: bs, c :: cs, a, hb, hc, hne => by
    have hlen : bs.length = _ := Nat.succ.inj hb
    have hlen' : cs.length = _ := Nat.succ.inj hc
    cases b <;> cases c
    · exact get_set_of_ne l bs cs a hlen hlen' (fun h => hne (by rw [h]))
    · rfl
    · rfl
    · exact get_set_of_ne r bs cs a hlen hlen' (fun h => hne (by rw [h]))

/-- Writing what is already there changes nothing. -/
theorem set_get : ∀ {n : Nat} (t : Tree α n) (bs : List Bool), t.set bs (t.get bs) = t
  | _, leaf _, _ => rfl
  | _, node l r, true :: bs => congrArg (node l) (set_get r bs)
  | _, node l r, false :: bs => congrArg (node · r) (set_get l bs)
  | _, node l r, [] => congrArg (node · r) (set_get l [])

/-- **A write moves the total by the difference of the two leaves.** -/
theorem total_set (f : α → Nat) : ∀ {n : Nat} (t : Tree α n) (bs : List Bool) (a : α),
    (t.set bs a).total f + f (t.get bs) = t.total f + f a
  | _, leaf x, _, a => Nat.add_comm _ _
  | _, node l r, true :: bs, a => by
    have ih := total_set f r bs a
    show l.total f + (r.set bs a).total f + f (r.get bs) = l.total f + r.total f + f a
    omega
  | _, node l r, false :: bs, a => by
    have ih := total_set f l bs a
    show (l.set bs a).total f + r.total f + f (l.get bs) = l.total f + r.total f + f a
    omega
  | _, node l r, [], a => by
    have ih := total_set f l [] a
    show (l.set [] a).total f + r.total f + f (l.get []) = l.total f + r.total f + f a
    omega

end Tree

/-! ## §2. Roots, paths, openings. -/

variable {α δ : Type}

/-- A membership path, root first. -/
abbrev Path (δ : Type) := List (Bool × δ)

/-- The two children of a step: `x` on side `b`, the sibling on the other. -/
def pairOf (b : Bool) (x s : δ) : δ × δ := if b then (s, x) else (x, s)

/-- The directions of a path. -/
def dirs (p : Path δ) : List Bool := p.map Prod.fst

variable (hl : α → δ) (hn : δ × δ → δ)

/-- The root under a leaf and a node hash. -/
def Tree.root : {n : Nat} → Tree α n → δ
  | _, .leaf a => hl a
  | _, .node l r => hn (l.root, r.root)

/-- The pairs of digests hashed in a tree. -/
def Tree.nodePairs : {n : Nat} → Tree α n → List (δ × δ)
  | _, .leaf _ => []
  | _, .node l r => (l.root hl hn, r.root hl hn) :: (l.nodePairs ++ r.nodePairs)

/-- The root a path spells for the leaf digest `d`. -/
def recompute (d : δ) : Path δ → δ
  | [] => d
  | (b, s) :: p => hn (pairOf b (recompute d p) s)

/-- The pairs hashed on the way. -/
def pathPairs (d : δ) : Path δ → List (δ × δ)
  | [] => []
  | (b, s) :: p => pairOf b (recompute hn d p) s :: pathPairs d p

/-- The true opening of a position. -/
def opening : {n : Nat} → Tree α n → List Bool → Path δ
  | _, .leaf _, _ => []
  | _, .node l r, true :: bs => (true, l.root hl hn) :: opening r bs
  | _, .node l r, false :: bs => (false, r.root hl hn) :: opening l bs
  | _, .node l r, [] => (false, r.root hl hn) :: opening l []

/-- Two different hashed pairs with the same digest. -/
def Collide (S T : List (δ × δ)) : Prop :=
  ∃ x ∈ S, ∃ y ∈ T, x ≠ y ∧ hn x = hn y

/-- Two different hashed leaves with the same digest. -/
def LeavesCollide (S T : List α) : Prop :=
  ∃ x ∈ S, ∃ y ∈ T, x ≠ y ∧ hl x = hl y

variable {hl hn}

theorem Collide.mono {S S' T T' : List (δ × δ)} (h : Collide hn S T) (hS : S ⊆ S')
    (hT : T ⊆ T') : Collide hn S' T' := by
  obtain ⟨x, hx, y, hy, hne, heq⟩ := h
  exact ⟨x, hS hx, y, hT hy, hne, heq⟩

theorem LeavesCollide.mono {S S' T T' : List α} (h : LeavesCollide hl S T) (hS : S ⊆ S')
    (hT : T ⊆ T') : LeavesCollide hl S' T' := by
  obtain ⟨x, hx, y, hy, hne, heq⟩ := h
  exact ⟨x, hS hx, y, hT hy, hne, heq⟩

theorem opening_length : ∀ {n : Nat} (t : Tree α n) (bs : List Bool),
    (opening hl hn t bs).length = n
  | _, .leaf _, _ => rfl
  | _, .node _ r, true :: bs => congrArg Nat.succ (opening_length r bs)
  | _, .node l _, false :: bs => congrArg Nat.succ (opening_length l bs)
  | _, .node l _, [] => congrArg Nat.succ (opening_length l [])

theorem dirs_opening : ∀ {n : Nat} (t : Tree α n) (bs : List Bool), bs.length = n →
    dirs (opening hl hn t bs) = bs
  | _, .leaf _, _, h => (List.length_eq_zero_iff.mp h).symm
  | _, .node _ r, true :: bs, h => congrArg (true :: ·) (dirs_opening r bs (Nat.succ.inj h))
  | _, .node l _, false :: bs, h => congrArg (false :: ·) (dirs_opening l bs (Nat.succ.inj h))

/-- **Completeness**: with any leaf digest, the true opening recomputes the root of
the tree with that leaf written. -/
theorem recompute_opening_set : ∀ {n : Nat} (t : Tree α n) (bs : List Bool) (a : α),
    recompute hn (hl a) (opening hl hn t bs) = (t.set bs a).root hl hn
  | _, .leaf _, _, _ => rfl
  | _, .node l r, true :: bs, a => by
    show hn (l.root hl hn, recompute hn (hl a) (opening hl hn r bs)) = _
    rw [recompute_opening_set r bs a]
    rfl
  | _, .node l r, false :: bs, a => by
    show hn (recompute hn (hl a) (opening hl hn l bs), r.root hl hn) = _
    rw [recompute_opening_set l bs a]
    rfl
  | _, .node l r, [], a => by
    show hn (recompute hn (hl a) (opening hl hn l []), r.root hl hn) = _
    rw [recompute_opening_set l [] a]
    rfl

/-- An opening leads to the root. -/
theorem recompute_opening {n : Nat} (t : Tree α n) (bs : List Bool) :
    recompute hn (hl (t.get bs)) (opening hl hn t bs) = t.root hl hn := by
  rw [recompute_opening_set, Tree.set_get]

/-! ## §3. Binding. -/

/-- **Soundness**: a path of the right length that recomputes the root of `t` for the
digest `d` is the true opening of its position and `d` the digest there, unless a pair
hashed along it collides with a node of `t`. -/
theorem opening_sound [DecidableEq δ] : ∀ {n : Nat} (t : Tree α n) (p : Path δ) (d : δ),
    p.length = n → recompute hn d p = t.root hl hn →
    (d = hl (t.get (dirs p)) ∧ p = opening hl hn t (dirs p))
      ∨ Collide hn (pathPairs hn d p) (t.nodePairs hl hn)
  | _, .leaf a, p, d, hlen, hroot => by
    rw [List.length_eq_zero_iff] at hlen
    subst hlen
    exact Or.inl ⟨hroot, rfl⟩
  | _, .node l r, (b, s) :: p, d, hlen, hroot => by
    have hlen' : p.length = _ := Nat.succ.inj hlen
    have hroot' : hn (pairOf b (recompute hn d p) s) = hn (l.root hl hn, r.root hl hn) := hroot
    by_cases hpair : pairOf b (recompute hn d p) s = (l.root hl hn, r.root hl hn)
    · -- the top pair is the true one: descend
      cases b with
      | true =>
        obtain ⟨hs, hx⟩ := Prod.mk.inj hpair
        rcases opening_sound r p d hlen' hx with ⟨hd, hp⟩ | hcol
        · left
          refine ⟨hd, ?_⟩
          show (true, s) :: p = (true, l.root hl hn) :: opening hl hn r (dirs p)
          rw [hs, ← hp]
        · right
          exact hcol.mono (List.subset_cons_self _ _)
            (List.subset_cons_of_subset _ (List.subset_append_right _ _))
      | false =>
        obtain ⟨hx, hs⟩ := Prod.mk.inj hpair
        rcases opening_sound l p d hlen' hx with ⟨hd, hp⟩ | hcol
        · left
          refine ⟨hd, ?_⟩
          show (false, s) :: p = (false, r.root hl hn) :: opening hl hn l (dirs p)
          rw [hs, ← hp]
        · right
          exact hcol.mono (List.subset_cons_self _ _)
            (List.subset_cons_of_subset _ (List.subset_append_left _ _))
    · right
      exact ⟨_, List.mem_cons_self .., _, List.mem_cons_self .., hpair, hroot'⟩

/-- **Equal roots**: two trees of one height with the same root are equal, unless two of
their nodes or leaves collide. -/
theorem root_inj [DecidableEq α] [DecidableEq δ] : ∀ {n : Nat} (t u : Tree α n),
    t.root hl hn = u.root hl hn →
    t = u ∨ Collide hn (t.nodePairs hl hn) (u.nodePairs hl hn)
      ∨ LeavesCollide hl t.leaves u.leaves
  | _, .leaf a, .leaf b, h => by
    by_cases hab : a = b
    · exact Or.inl (congrArg _ hab)
    · exact Or.inr (Or.inr ⟨a, List.mem_singleton.mpr rfl, b, List.mem_singleton.mpr rfl, hab, h⟩)
  | _, .node l r, .node l' r', h => by
    by_cases hpair : (l.root hl hn, r.root hl hn) = (l'.root hl hn, r'.root hl hn)
    · obtain ⟨hl', hr'⟩ := Prod.mk.inj hpair
      rcases root_inj l l' hl' with heq | hcol | hcol
      · rcases root_inj r r' hr' with heq' | hcol | hcol
        · exact Or.inl (by rw [heq, heq'])
        · exact Or.inr (Or.inl (hcol.mono
            (List.subset_cons_of_subset _ (List.subset_append_right _ _))
            (List.subset_cons_of_subset _ (List.subset_append_right _ _))))
        · exact Or.inr (Or.inr (hcol.mono (List.subset_append_right _ _)
            (List.subset_append_right _ _)))
      · exact Or.inr (Or.inl (hcol.mono
          (List.subset_cons_of_subset _ (List.subset_append_left _ _))
          (List.subset_cons_of_subset _ (List.subset_append_left _ _))))
      · exact Or.inr (Or.inr (hcol.mono (List.subset_append_left _ _)
          (List.subset_append_left _ _)))
    · exact Or.inr (Or.inl ⟨_, List.mem_cons_self .., _, List.mem_cons_self .., hpair, h⟩)

/-! ## §4. Two writes from two openings. -/

variable (hn) in
/-- The root after writing `d₁` and then `d₂`, from one opening of each position in the
tree BEFORE the writes: the two paths share their siblings down to the fork, and there
each is the other's sibling. -/
def recompute₂ (d₁ d₂ : δ) : Path δ → Path δ → δ
  | (b₁, s₁) :: p₁, (b₂, _) :: p₂ =>
    if b₁ = b₂ then hn (pairOf b₁ (recompute₂ d₁ d₂ p₁ p₂) s₁)
    else hn (pairOf b₁ (recompute hn d₁ p₁) (recompute hn d₂ p₂))
  | _, _ => d₂

/-- **The root after two writes.** -/
theorem root_set_set : ∀ {n : Nat} (t : Tree α n) (bs cs : List Bool) (a c : α),
    bs.length = n → cs.length = n →
    ((t.set bs a).set cs c).root hl hn
      = recompute₂ hn (hl a) (hl c) (opening hl hn t bs) (opening hl hn t cs)
  | _, .leaf _, _, _, _, _, _, _ => rfl
  | _, .node l r, b :: bs, x :: cs, a, c, hb, hc => by
    have hb' : bs.length = _ := Nat.succ.inj hb
    have hc' : cs.length = _ := Nat.succ.inj hc
    cases b <;> cases x
    · show hn (((l.set bs a).set cs c).root hl hn, r.root hl hn) = _
      rw [root_set_set l bs cs a c hb' hc']
      rfl
    · show hn ((l.set bs a).root hl hn, (r.set cs c).root hl hn) = _
      rw [← recompute_opening_set l bs a, ← recompute_opening_set r cs c]
      rfl
    · show hn ((l.set cs c).root hl hn, (r.set bs a).root hl hn) = _
      rw [← recompute_opening_set r bs a, ← recompute_opening_set l cs c]
      rfl
    · show hn (l.root hl hn, ((r.set bs a).set cs c).root hl hn) = _
      rw [root_set_set r bs cs a c hb' hc']
      rfl

/-! ## §5. Trees of equal leaves. -/

/-- The tree with `a` at every leaf. -/
def Tree.replicate (a : α) : (n : Nat) → Tree α n
  | 0 => .leaf a
  | n + 1 => .node (replicate a n) (replicate a n)

theorem Tree.get_replicate (a : α) : ∀ (n : Nat) (bs : List Bool), (Tree.replicate a n).get bs = a
  | 0, _ => rfl
  | n + 1, true :: bs => get_replicate a n bs
  | n + 1, false :: bs => get_replicate a n bs
  | n + 1, [] => get_replicate a n []

theorem Tree.set_replicate (a : α) (n : Nat) (bs : List Bool) :
    (Tree.replicate a n).set bs a = Tree.replicate a n := by
  have h := (Tree.replicate a n).set_get bs
  rwa [Tree.get_replicate] at h

theorem Tree.leaves_replicate {a x : α} : ∀ {n : Nat}, x ∈ (Tree.replicate a n).leaves → x = a
  | 0, h => List.mem_singleton.mp h
  | _ + 1, h => (List.mem_append.mp h).elim leaves_replicate leaves_replicate

/-- All nodes of a level are equal. -/
theorem Tree.nodePairs_replicate {a : α} {x : δ × δ} : ∀ {n : Nat},
    x ∈ (Tree.replicate a n).nodePairs hl hn →
      ∃ k, k < n ∧ x = ((Tree.replicate a k).root hl hn, (Tree.replicate a k).root hl hn)
  | 0, h => absurd h List.not_mem_nil
  | n + 1, h => by
    have hrest : ∀ h' : x ∈ (Tree.replicate a n).nodePairs hl hn,
        ∃ k, k < n + 1
          ∧ x = ((Tree.replicate a k).root hl hn, (Tree.replicate a k).root hl hn) := by
      intro h'
      obtain ⟨k, hk, hx⟩ := nodePairs_replicate h'
      exact ⟨k, Nat.lt_succ_of_lt hk, hx⟩
    rcases List.mem_cons.mp h with hx | h
    · exact ⟨n, Nat.lt_succ_self n, hx⟩
    · exact (List.mem_append.mp h).elim hrest hrest

/-- The opening of the leftmost position: one level digest per step. -/
theorem opening_replicate (a : α) : ∀ n : Nat,
    opening hl hn (Tree.replicate a n) (List.replicate n false)
      = (List.range n).reverse.map (fun k => (false, (Tree.replicate a k).root hl hn))
  | 0 => rfl
  | n + 1 => by
    rw [List.range_succ, List.reverse_append, List.map_append]
    exact congrArg (_ :: ·) (opening_replicate a n)

/-- Checking a true opening hashes nodes of the tree only. -/
theorem pathPairs_opening_subset : ∀ {n : Nat} (t : Tree α n) (bs : List Bool),
    pathPairs hn (hl (t.get bs)) (opening hl hn t bs) ⊆ t.nodePairs hl hn
  | _, .leaf _, _ => List.Subset.refl _
  | _, .node l r, true :: bs => by
    refine List.cons_subset.mpr ⟨?_, ?_⟩
    · show (l.root hl hn, recompute hn (hl (r.get bs)) (opening hl hn r bs)) ∈ _
      rw [recompute_opening]
      exact List.mem_cons_self ..
    · exact List.Subset.trans (pathPairs_opening_subset r bs)
        (List.subset_cons_of_subset _ (List.subset_append_right _ _))
  | _, .node l r, false :: bs => by
    refine List.cons_subset.mpr ⟨?_, ?_⟩
    · show (recompute hn (hl (l.get bs)) (opening hl hn l bs), r.root hl hn) ∈ _
      rw [recompute_opening]
      exact List.mem_cons_self ..
    · exact List.Subset.trans (pathPairs_opening_subset l bs)
        (List.subset_cons_of_subset _ (List.subset_append_left _ _))
  | _, .node l r, [] => by
    refine List.cons_subset.mpr ⟨?_, ?_⟩
    · show (recompute hn (hl (l.get [])) (opening hl hn l []), r.root hl hn) ∈ _
      rw [recompute_opening]
      exact List.mem_cons_self ..
    · exact List.Subset.trans (pathPairs_opening_subset l [])
        (List.subset_cons_of_subset _ (List.subset_append_left _ _))

end HZKA.Lib.Merkle
