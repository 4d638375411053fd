import ClassPatch.Lift.Code
import ClassPatch.Proofs.Bytecode.Layout

/-!
Labels and the offsets they stand for in code that is lifted. Where boundaries move but keep their
order, the labels stay the same.
-/

namespace ClassPatch

namespace Boundaries

theorem contains_ofDecoded {decoded : List (Nat × Decoded)} {codeLength offset : Nat} :
    (ofDecoded decoded codeLength).contains offset = true
      ↔ offset ∈ boundaryOffsets decoded codeLength := by
  unfold contains ofDecoded
  rw [Std.HashSet.contains_ofList, List.contains_iff_mem]
  rfl

theorem check_eq_ok {b : Boundaries} {source target t : Nat} :
    b.check source target = .ok t ↔ b.contains target = true ∧ t = target := by
  unfold check
  split
  next h =>
    constructor
    · intro ht
      cases ht
      exact ⟨h, rfl⟩
    · intro ht
      rw [ht.2]
  next h =>
    constructor
    · intro ht
      cases ht
    · intro ht
      exact absurd ht.1 h

theorem labels_eq_some_iff {b : Boundaries} {marked : List Nat}
    (h : b.offsets.Pairwise (· < ·)) {offset : Nat} {label : Label} :
    (b.labels marked)[offset]? = some label
      ↔ (b.offsets.filter marked.contains)[label]? = some offset := by
  unfold labels
  dsimp only
  have hcontains : (Std.HashSet.ofList marked).contains = marked.contains := by
    funext o
    exact Std.HashSet.contains_ofList
  rw [hcontains]
  have hdistinct : (b.offsets.filter marked.contains).zipIdx.Pairwise
      fun x y => (x.1 == y.1) = false := by
    have hfilter := (h.filter marked.contains).imp (S := (· ≠ ·)) fun hlt => Nat.ne_of_lt hlt
    rw [← List.zipIdx_map_fst 0 (b.offsets.filter _), List.pairwise_map] at hfilter
    exact hfilter.imp fun hne => beq_false_of_ne hne
  have hfound {k : Label} (hk : (b.offsets.filter marked.contains)[k]? = some offset) :
      (Std.HashMap.ofList (b.offsets.filter marked.contains).zipIdx)[offset]? = some k :=
    Std.HashMap.getElem?_ofList_of_mem (beq_self_eq_true offset) hdistinct
      (List.mk_mem_zipIdx_iff_getElem?.2 hk)
  refine ⟨fun hlabel => ?_, hfound⟩
  by_cases hmem : offset ∈ b.offsets.filter marked.contains
  · obtain ⟨k, hk⟩ := List.mem_iff_getElem?.1 hmem
    rw [hfound hk] at hlabel
    rwa [← Option.some.inj hlabel]
  · have hkeys : ((b.offsets.filter marked.contains).zipIdx.map Prod.fst).contains offset
        = false := by
      rw [List.zipIdx_map_fst, Bool.eq_false_iff, ne_eq, List.contains_iff_mem]
      exact hmem
    rw [Std.HashMap.getElem?_ofList_of_contains_eq_false hkeys] at hlabel
    cases hlabel

end Boundaries

/-- Boundaries and where they went: pairs of offsets, both in increasing order. -/
structure Moves (pairs : List (Nat × Nat)) : Prop where
  left : (pairs.map (·.1)).Pairwise (· < ·)
  right : (pairs.map (·.2)).Pairwise (· < ·)

namespace Moves

variable {pairs : List (Nat × Nat)}

theorem lt_iff (h : Moves pairs) {a b a' b' : Nat} (hab : (a, b) ∈ pairs)
    (hab' : (a', b') ∈ pairs) : a < a' ↔ b < b' := by
  have hpairs : pairs.Pairwise fun x y => x.1 < y.1 ∧ x.2 < y.2 :=
    (List.pairwise_map.1 h.left).and (List.pairwise_map.1 h.right)
  obtain ⟨i, hi, hab⟩ := List.getElem_of_mem hab
  obtain ⟨j, hj, hab'⟩ := List.getElem_of_mem hab'
  rcases Nat.lt_trichotomy i j with hij | hij | hij
  · have := List.pairwise_iff_getElem.1 hpairs i j hi hj hij
    rw [hab, hab'] at this
    exact ⟨fun _ => this.2, fun _ => this.1⟩
  · subst hij
    rw [hab] at hab'
    cases hab'
    constructor <;> intro hlt <;> exact absurd hlt (Nat.lt_irrefl _)
  · have := List.pairwise_iff_getElem.1 hpairs j i hj hi hij
    rw [hab, hab'] at this
    dsimp only at this
    constructor <;> intro hlt <;> omega

theorem eq_iff (h : Moves pairs) {a b a' b' : Nat} (hab : (a, b) ∈ pairs)
    (hab' : (a', b') ∈ pairs) : a = a' ↔ b = b' := by
  have hlt := h.lt_iff hab hab'
  have hgt := h.lt_iff hab' hab
  omega

theorem mem_iff (h : Moves pairs) {marked marked' : List Nat}
    (hmarked : List.Forall₂ (fun a b => (a, b) ∈ pairs) marked marked') {a b : Nat}
    (hab : (a, b) ∈ pairs) : a ∈ marked ↔ b ∈ marked' := by
  constructor
  · intro ha
    obtain ⟨b', hb', hpair⟩ := exists_of_mem_left hmarked ha
    rwa [(h.eq_iff hab hpair).1 rfl]
  · intro hb
    obtain ⟨a', ha', hpair⟩ := exists_of_mem_right hmarked hb
    rwa [(h.eq_iff hab hpair).2 rfl]

theorem getElem?_filter (h : Moves pairs) {marked marked' : List Nat}
    (hmarked : ∀ x ∈ pairs, x.1 ∈ marked ↔ x.2 ∈ marked') {a b : Nat} (hab : (a, b) ∈ pairs)
    (k : Nat) :
    ((pairs.map (·.1)).filter marked.contains)[k]? = some a
      ↔ ((pairs.map (·.2)).filter marked'.contains)[k]? = some b := by
  have hfilter : pairs.filter (fun x => marked'.contains x.2)
      = pairs.filter fun x => marked.contains x.1 := by
    refine List.filter_congr fun x hx => ?_
    rw [Bool.eq_iff_iff, List.contains_iff_mem, List.contains_iff_mem]
    exact (hmarked x hx).symm
  rw [List.filter_map, List.filter_map, List.getElem?_map, List.getElem?_map]
  simp only [Function.comp_def]
  rw [hfilter]
  cases hk : (pairs.filter fun x => marked.contains x.1)[k]? with
  | none =>
    constructor <;> intro hnone <;> cases hnone
  | some x =>
    have hx := List.mem_of_mem_filter (List.mem_of_getElem? hk)
    simp only [Option.map_some, Option.some.injEq]
    exact h.eq_iff hx hab

theorem labels_eq (h : Moves pairs) {b b' : Boundaries} (hb : b.offsets = pairs.map (·.1))
    (hb' : b'.offsets = pairs.map (·.2)) {marked marked' : List Nat}
    (hmarked : List.Forall₂ (fun o o' => (o, o') ∈ pairs) marked marked') {o o' : Nat}
    (ho : (o, o') ∈ pairs) : (b'.labels marked')[o']? = (b.labels marked)[o]? := by
  have hleft (k : Label) :
      (b.labels marked)[o]? = some k ↔ (b.offsets.filter marked.contains)[k]? = some o :=
    Boundaries.labels_eq_some_iff (hb ▸ h.left)
  have hright (k : Label) :
      (b'.labels marked')[o']? = some k ↔ (b'.offsets.filter marked'.contains)[k]? = some o' :=
    Boundaries.labels_eq_some_iff (hb' ▸ h.right)
  apply Option.ext
  intro k
  rw [hleft, hright, hb, hb']
  exact (h.getElem?_filter (fun x hx => h.mem_iff hmarked hx) ho k).symm

end Moves

end ClassPatch
