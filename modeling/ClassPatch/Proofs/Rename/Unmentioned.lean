import ClassPatch.Proofs.Rename.Kept

/-!
A renaming without a new name for any class that is mentioned changes nothing. All that can get lost
is what the class was read with, and only where no attribute needs it.
-/

namespace ClassPatch

namespace Renaming

variable {r : Renaming}

theorem keeps_of_eq_none {names : List String} (h : ∀ name ∈ names, r name = none) :
    r.Keeps names := by
  intro name hname
  unfold applyText
  rw [h name hname]
  rfl

theorem ofTable_singleton (source : String) (target : BinaryName) :
    ofTable [(source, target)] = single source target := by
  funext name
  unfold ofTable single
  rw [List.reverse_singleton, List.lookup_cons, List.lookup_nil]
  cases h : name == source with
  | true => rw [if_pos (beq_iff_eq.1 h)]
  | false => rw [if_neg (beq_eq_false_iff_ne.1 h)]

theorem ofTable_singleton_eq_none {source name : String} {target : BinaryName} (h : name ≠ source) :
    ofTable [(source, target)] name = none := by
  rw [ofTable_singleton]
  exact if_neg h

end Renaming

namespace Class

variable {r : Renaming} {c : Class}

theorem rename_eq_of_keeps (h : r.Keeps c.names) :
    c.rename r = if c.hasVerbatimAttributes then c else c.withoutPool := by
  cases hverbatim : c.hasVerbatimAttributes with
  | true => exact rename_eq_self h hverbatim
  | false =>
    rw [if_neg Bool.false_ne_true]
    obtain ⟨hpool, hbootstraps⟩ := rename_of_not_hasVerbatimAttributes r hverbatim
    calc c.rename r
      _ = { (c.rename r).withoutPool with
          constantPool := (c.rename r).constantPool
          bootstrapMethods := (c.rename r).bootstrapMethods } := rfl
      _ = c.withoutPool := by rw [rename_of_keeps h, hpool, hbootstraps]; rfl

theorem eq_none_of_mem_names (h : ∀ name, c.mentions name = true → r name = none) :
    ∀ name ∈ c.names, r name = none :=
  fun name hname => h name (List.contains_iff_mem.2 hname)

/-- A class stays as it is, but for the pool, if nothing that it mentions has a new name. So does
every text of a descriptor or signature, well formed or not. The renaming may in particular be the
identity, or a table of one entry for a class that is not mentioned. -/
theorem rename_of_unmentioned :
    (∀ (c : Class) (r : Renaming), (∀ name, c.mentions name = true → r name = none) →
      c.rename r = if c.hasVerbatimAttributes then c else c.withoutPool)
    ∧ (∀ c : Class,
      c.rename .identity = if c.hasVerbatimAttributes then c else c.withoutPool)
    ∧ (∀ (c : Class) (source : String) (target : BinaryName), c.mentions source = false →
      c.rename (.ofTable [(source, target)])
        = if c.hasVerbatimAttributes then c else c.withoutPool)
    ∧ (∀ (text : DescriptorText) (r : Renaming), (∀ name ∈ text.names, r name = none) →
      text.rename r = text)
    ∧ ∀ (text : SignatureText) (r : Renaming), (∀ name ∈ text.names, r name = none) →
      text.rename r = text := by
  refine ⟨?any, ?identity, ?table, ?descriptor, ?signature⟩
  case any =>
    intro c r h
    exact rename_eq_of_keeps (Renaming.keeps_of_eq_none (eq_none_of_mem_names h))
  case identity =>
    intro c
    exact rename_eq_of_keeps (Renaming.keeps_of_eq_none fun _ _ => rfl)
  case table =>
    intro c source target hsource
    rw [Renaming.ofTable_singleton]
    exact rename_eq_of_keeps
      (Renaming.keeps_single_of_not_mem (mentions_eq_false.1 hsource))
  case descriptor =>
    intro text r h
    exact text.rename_of_keeps (Renaming.keeps_of_eq_none h)
  case signature =>
    intro text r h
    exact text.rename_of_keeps (Renaming.keeps_of_eq_none h)

theorem isName_list : BinaryName.fault? "java/util/List" = none := by decide +kernel

theorem isName_member : BinaryName.fault? "P$M" = none := by decide +kernel

theorem isName_Q : BinaryName.fault? "Q" = none := by decide +kernel

/-- A class with an attribute that is carried along, a signature that breaks off after a name, and a
local variable whose descriptor is none. -/
def torn : Class where
  version := .java8
  accessFlags := .truncate _ 0x20
  name := ⟨"Torn", by decide +kernel⟩
  superName := some ⟨"java/util/List", isName_list⟩
  signature := some "Ljava/util/List<LP;"
  methods := [{
    accessFlags := .truncate _ 0
    name := ⟨"m", isName_m⟩
    descriptor := ⟨[.ref (.object ⟨"P$M", isName_member⟩)], none⟩
    code := some {
      elements := [.label 0, .branch .voidReturn]
      localVariables := [{ start := 0, stop := 0, name := "x", descriptor := "LP", index := 1 }] } }]
  attributes := [⟨"Opaque", [0, 1]⟩]

theorem rename_torn :
    let target : BinaryName := ⟨"Q", isName_Q⟩
    torn.mentions "P" = true ∧ torn.mentions "R" = false
      ∧ (∀ name, torn.mentions name = true → Renaming.ofTable [("R", target)] name = none)
      ∧ torn.rename (.ofTable [("R", target)]) = torn
      ∧ SignatureText.rename (.ofTable [("R", target)]) "Ljava/util/List<LP;"
        = "Ljava/util/List<LP;" := by
  intro target
  have hpresent : torn.mentions "P" = true := by decide +kernel
  have habsent : torn.mentions "R" = false := by decide +kernel
  have hnone : ∀ name, torn.mentions name = true → Renaming.ofTable [("R", target)] name = none := by
    intro name hname
    refine Renaming.ofTable_singleton_eq_none fun heq => ?_
    rw [heq, habsent] at hname
    cases hname
  have hnames : ∀ name ∈ SignatureText.names "Ljava/util/List<LP;",
      Renaming.ofTable [("R", target)] name = none := by
    have heq : SignatureText.names "Ljava/util/List<LP;" = ["P", "java/util/List"] := by
      decide +kernel
    intro name hname
    refine Renaming.ofTable_singleton_eq_none fun hsource => ?_
    rw [heq, hsource] at hname
    exact absurd hname (by decide)
  obtain ⟨hany, -, htable, -, hsignature⟩ := rename_of_unmentioned
  exact ⟨hpresent, habsent, hnone, htable torn "R" target habsent, hsignature _ _ hnames⟩

end Class

end ClassPatch
