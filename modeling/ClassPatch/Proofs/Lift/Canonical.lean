import ClassPatch.Class.StackDepth
import ClassPatch.Proofs.Bytecode.Assemble
import ClassPatch.Proofs.Lift.Code

/-!
Code with the labels that it is lifted with. A place is a position between instructions, counted by
the instructions before it; labels at one place are the same label, and they are numbered in the
order of their places.
-/

namespace ClassPatch

namespace Code

/-- Labels that something in the code refers to. -/
def references (c : Code) : List Label :=
  c.elements.flatMap (·.references)
    ++ c.exceptionHandlers.flatMap (·.references)
    ++ (c.lineNumbers.map (·.start)
      ++ (c.localVariables ++ c.localVariableTypes).flatMap (·.references))
    ++ c.frames.flatMap fun f => f.1 :: f.2.sites

/-- Number of instructions. -/
def size (c : Code) : Nat := c.elements.countP CodeElement.takesBytes

/-- Number of instructions in front of a label. -/
def placeIn (elements : List BodyElement) (label : Label) : Nat :=
  (elements.takeWhile (· ≠ .label label)).countP CodeElement.takesBytes

def place (c : Code) (label : Label) : Nat := placeIn c.elements label

/-- Places that something in the code refers to, in their order. -/
def landmarks (c : Code) : List Nat :=
  (List.range (c.size + 1)).filter (c.references.map c.place).contains

/-- The number of a label among the places that something refers to. -/
def renumber (c : Code) (label : Label) : Label := c.landmarks.idxOf (c.place label)

/-- The label for a place, if something refers to it. -/
def labelFor (c : Code) (place : Nat) : List BodyElement :=
  if place ∈ c.landmarks then [.label (c.landmarks.idxOf place)] else []

/-- Instructions from a place on, each behind the label for its place. -/
def relabelFrom (c : Code) : Nat → List BodyElement → List BodyElement
  | place, [] => c.labelFor place
  | place, .label _ :: es => relabelFrom c place es
  | place, e :: es => c.labelFor place ++ e.relabel c.renumber :: relabelFrom c (place + 1) es

/-- Frames in the order of their places. -/
def sortedFrames (c : Code) : List (Label × BodyFrame) :=
  c.frames.mergeSort fun f g => c.place f.1 ≤ c.place g.1

/-- The code with its frames in order, its labels renumbered, and its limits filled in. -/
def canonical (context : MethodContext) (c : Code) : Code where
  maxStack := c.maxStack.or (stackLimit c.elements c.exceptionHandlers).toOption
  maxLocals := some (c.maxLocals.getD (localLimit c.elements context.descriptor context.isStatic))
  elements := c.relabelFrom 0 c.elements
  exceptionHandlers := c.exceptionHandlers.map (·.relabel c.renumber)
  lineNumbers := c.lineNumbers.map (·.relabel c.renumber)
  localVariables := c.localVariables.map (·.relabel c.renumber)
  localVariableTypes := c.localVariableTypes.map (·.relabel c.renumber)
  frames := c.sortedFrames.map fun f => (c.renumber f.1, f.2.mapSites c.renumber)
  attributes := c.attributes

/-- Labels stand where they can be referred to. -/
structure Placed (c : Code) : Prop where
  /-- A label that something refers to stands at one place. -/
  once : ∀ k ∈ c.references, c.elements.count (.label k) = 1
  /-- Behind the target of a branch there is an instruction. -/
  targets : ∀ e ∈ c.elements, ∀ k ∈ e.references, c.place k < c.size
  /-- Behind the label of a frame there is an instruction. -/
  frames : ∀ f ∈ c.frames, c.place f.1 < c.size

/-- The keys of its tables of jumps can be counted up in four bytes. -/
def RangesFit (c : Code) : Prop :=
  ∀ b : SymbolicBranch, .branch b ∈ c.elements → LayoutElement.RangeFits (.branch b)

/-- The keys of its tables of jumps fit four bytes. -/
def JumpTablesFit (c : Code) : Prop :=
  ∀ b : SymbolicBranch, .branch b ∈ c.elements → b.TableFits

/-- The parts of the code can be read from a class file. -/
structure Readable (c : Code) : Prop where
  constants : ∀ e ∈ c.elements, e.WellFormed fun _ => True
  ranges : c.RangesFit
  tables : c.TablesFit
  frames : c.frames.length ≤ 0xFFFF
  frameTypes : ∀ f ∈ c.frames, f.2.locals.length ≤ 0xFFFF ∧ f.2.stack.length ≤ 0xFFFF
  attributes : ∀ v ∈ c.attributes, v.name ∉ Resolver.codeAttributes

variable {c : Code} {k : Label}

theorem mem_references_of_element {e : BodyElement} (he : e ∈ c.elements) (hk : k ∈ e.references) :
    k ∈ c.references := by
  simp only [references, List.mem_append, List.mem_flatMap]
  exact .inl (.inl (.inl ⟨e, he, hk⟩))

theorem mem_references_of_handler {h : ExceptionHandler} (hh : h ∈ c.exceptionHandlers)
    (hk : k ∈ h.references) : k ∈ c.references := by
  simp only [references, List.mem_append, List.mem_flatMap]
  exact .inl (.inl (.inr ⟨h, hh, hk⟩))

theorem mem_references_of_lineNumber {l : LineNumber} (hl : l ∈ c.lineNumbers) :
    l.start ∈ c.references := by
  simp only [references, List.mem_append]
  exact .inl (.inr (.inl (List.mem_map_of_mem hl)))

theorem mem_references_of_variable {v : LocalVariable}
    (hv : v ∈ c.localVariables ++ c.localVariableTypes) (hk : k ∈ v.references) :
    k ∈ c.references := by
  simp only [references, List.mem_append, List.mem_flatMap]
  exact .inl (.inr (.inr ⟨v, List.mem_append.1 hv, hk⟩))

theorem mem_references_of_frame {f : Label × BodyFrame} (hf : f ∈ c.frames)
    (hk : k ∈ f.1 :: f.2.sites) : k ∈ c.references := by
  simp only [references, List.mem_append, List.mem_flatMap]
  exact .inr ⟨f, hf, hk⟩

theorem perm_sortedFrames (c : Code) : c.sortedFrames.Perm c.frames := List.mergeSort_perm _ _

theorem mem_landmarks {place : Nat} :
    place ∈ c.landmarks ↔ place ≤ c.size ∧ ∃ k ∈ c.references, c.place k = place := by
  unfold landmarks
  rw [List.mem_filter, List.mem_range, Nat.lt_succ_iff, List.contains_iff_mem, List.mem_map]

theorem getElem?_idxOf_landmarks {place : Nat} (h : place ∈ c.landmarks) :
    c.landmarks[c.landmarks.idxOf place]? = some place := by
  rw [List.getElem?_eq_getElem (List.idxOf_lt_length_of_mem h), List.getElem_idxOf]

end Code

end ClassPatch
