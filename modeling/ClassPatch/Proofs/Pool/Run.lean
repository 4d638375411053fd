import ClassPatch.Proofs.Pool.Growth
import Mathlib.Algebra.GroupWithZero.Nat
import Mathlib.Data.Nat.Find

/-!
Runs of requests to a pool. A pool only grows, so what was found once is found again, and the index
that was answered leads to what was asked for in every later pool. Entries that are reserved are not
found before they are filled, so filling one changes none that was answered.
-/

namespace ClassPatch

namespace Pool

/-- What can be asked of a pool. -/
inductive Request where
  | constant (c : Constant)
  | bootstrap (e : BootstrapEntry)
  | reserve (count : Nat)
  | fill (index : UInt16) (e : BootstrapEntry)

abbrev Answer := Except ClassError UInt16

/-- A filled entry is answered with its index. -/
def answer (p : Pool) : Request → Answer × Pool
  | .constant c => p.insert c
  | .bootstrap e => (.ok (p.insertBootstrap e).1, (p.insertBootstrap e).2)
  | .reserve count => (.ok (p.reserveBootstraps count).1, (p.reserveBootstraps count).2)
  | .fill index e => (.ok index, p.fillBootstrap index e)

/-- The answers to requests in turn, and the pool after the last. -/
def answers : Pool → List Request → List Answer × Pool
  | p, [] => ([], p)
  | p, request :: requests =>
    let (answer, q) := p.answer request
    let (rest, r) := q.answers requests
    (answer :: rest, r)

/-- Entries that are reserved and not filled, after the next request. -/
def unfilled (p : Pool) (free : List Nat) : Request → List Nat
  | .reserve count => free ++ List.range' p.bootstrapMethods.size count
  | .fill index _ => free.erase index.toNat
  | _ => free

/-- Only entries are filled that were reserved and not filled before. -/
def FillsReserved : Pool → List Nat → List Request → Prop
  | _, _, [] => True
  | p, free, request :: requests =>
    (∀ (index : UInt16) (e : BootstrapEntry), request = .fill index e → index.toNat ∈ free)
      ∧ FillsReserved (p.answer request).2 (p.unfilled free request) requests

/-- Bootstrap methods that a request adds, at most. -/
def Request.added : Request → Nat
  | .bootstrap _ => 1
  | .reserve count => count
  | _ => 0

/-- The second pool finds what the first does, and has its constants at its front. -/
structure Extends (p q : Pool) : Prop where
  indices : ∀ (c : Constant) (i : ConstantIndex), p.indices[c]? = some i → q.indices[c]? = some i
  bootstrapIndices : ∀ (e : BootstrapEntry) (i : UInt16), p.bootstrapIndices[e]? = some i →
    q.bootstrapIndices[e]? = some i
  constants : ∃ cs, q.constants = p.constants.append cs
  size_le : p.bootstrapMethods.size ≤ q.bootstrapMethods.size

/-- A valid pool, with entries that are reserved and not found. -/
structure ValidWith (p : Pool) (free : List Nat) : Prop where
  valid : p.Valid
  nodup : free.Nodup
  lt_size : ∀ i ∈ free, i < p.bootstrapMethods.size
  not_found : ∀ (e : BootstrapEntry) (j : UInt16), p.bootstrapIndices[e]? = some j →
    p.bootstrapMethods.size ≤ 0x10000 → j.toNat ∉ free

variable {p q r : Pool} {free : List Nat} {request : Request} {requests : List Request}

namespace Extends

theorem refl (p : Pool) : p.Extends p := ⟨fun _ _ h => h, fun _ _ h => h, ⟨[], rfl⟩, Nat.le_refl _⟩

theorem trans (h : p.Extends q) (h' : q.Extends r) : p.Extends r := by
  obtain ⟨cs, hcs⟩ := h.constants
  obtain ⟨ds, hds⟩ := h'.constants
  constructor
  case indices => exact fun c i hi => h'.indices c i (h.indices c i hi)
  case bootstrapIndices => exact fun e i hi => h'.bootstrapIndices e i (h.bootstrapIndices e i hi)
  case constants => exact ⟨cs ++ ds, by rw [hds, hcs, SlotTable.append_append]⟩
  case size_le => exact Nat.le_trans h.size_le h'.size_le

theorem of_grows {allowed : Pool → BootstrapEntry → Prop} (h : p.Grows allowed q) :
    p.Extends q where
  indices := fun _ _ => h.indices
  bootstrapIndices := fun _ _ => h.bootstrapIndices
  constants := h.constants
  size_le := h.size_le

theorem get?_eq (h : p.Extends q) (hp : p.Valid) (hq : q.Valid) {slot : Nat} {c : Constant}
    (hc : p.constants.get? slot = some c) : q.constants.get? slot = some c := by
  obtain ⟨cs, hcs⟩ := h.constants
  rw [SlotTable.get?_eq_some_iff hp.ordered] at hc
  rw [SlotTable.get?_eq_some_iff hq.ordered, hcs]
  exact SlotTable.mem_entries_append _ hc cs

end Extends

theorem insert_cases (p : Pool) (c : Constant) :
    (∃ i q, p.insert c = (.ok i, q)) ∨ ∃ e, p.insert c = (.error e, p) := by
  unfold insert
  split
  · exact .inl ⟨_, _, rfl⟩
  · dsimp only
    split
    · exact .inl ⟨_, _, rfl⟩
    · exact .inr ⟨_, rfl⟩

theorem eq_of_insert_eq_error {c : Constant} {e : ClassError} (h : (p.insert c).1 = .error e) :
    (p.insert c).2 = p := by
  rcases p.insert_cases c with ⟨i, q, hinsert⟩ | ⟨e', hinsert⟩
  · rw [hinsert] at h
    cases h
  · rw [hinsert]

/-- Every entry may be added to the table. -/
abbrev anyEntry (_ : Pool) (_ : BootstrapEntry) : Prop := True

theorem grows_insertBootstrap_any (p : Pool) (e : BootstrapEntry) :
    p.Grows anyEntry (p.insertBootstrap e).2
      ∧ (p.insertBootstrap e).2.bootstrapIndices[e]? = some (p.insertBootstrap e).1 :=
  grows_insertBootstrap trivial rfl

theorem grows_insert_any (p : Pool) (c : Constant) : p.Grows anyEntry (p.insert c).2 := by
  rcases p.insert_cases c with ⟨i, q, hinsert⟩ | ⟨e, hinsert⟩
  · rw [hinsert]
    exact (grows_insert anyEntry hinsert).1
  · rw [hinsert]
    exact .refl

theorem extends_answer (p : Pool) (request : Request) : p.Extends (p.answer request).2 := by
  cases request with
  | constant c => exact .of_grows (p.grows_insert_any c)
  | bootstrap e => exact .of_grows (p.grows_insertBootstrap_any e).1
  | reserve count =>
    refine ⟨fun _ _ h => h, fun _ _ h => h, ⟨[], rfl⟩, ?_⟩
    simp only [answer, reserveBootstraps, Array.size_append]
    omega
  | fill index e =>
    refine ⟨fun _ _ h => h, ?_, ⟨[], rfl⟩, ?_⟩
    · exact fun _ _ => bootstrapIndices_fillBootstrap_of_some
    · exact Nat.le_of_eq size_fillBootstrap.symm

theorem size_answer_le (p : Pool) (request : Request) :
    (p.answer request).2.bootstrapMethods.size ≤ p.bootstrapMethods.size + request.added := by
  cases request with
  | constant c =>
    rcases p.insert_cases c with ⟨i, q, hinsert⟩ | ⟨e, hinsert⟩
    · simp only [answer, hinsert, (sameTable_insert hinsert).bootstrapMethods, Request.added,
        Nat.add_zero, Nat.le_refl]
    · simp only [answer, hinsert, Request.added, Nat.add_zero, Nat.le_refl]
  | bootstrap e =>
    simp only [answer, insertBootstrap, Request.added]
    split
    · exact Nat.le_succ _
    · simp only [Array.size_push, Nat.le_refl]
  | reserve count =>
    simp only [answer, reserveBootstraps, Request.added, Array.size_append, Array.size_replicate,
      Nat.le_refl]
  | fill index e => exact Nat.le_of_eq size_fillBootstrap

namespace ValidWith

theorem grows {allowed : Pool → BootstrapEntry → Prop} (h : p.ValidWith free)
    (hgrows : p.Grows allowed q) : q.ValidWith free where
  valid := hgrows.valid h.valid
  nodup := h.nodup
  lt_size := fun i hi => Nat.lt_of_lt_of_le (h.lt_size i hi) hgrows.size_le
  not_found := by
    intro e j hj hsize hfree
    have hle := hgrows.size_le
    rcases hgrows.le_of_bootstrapIndices hj hsize with hfound | hbehind
    · exact h.not_found e j hfound (by omega) hfree
    · have hlt := h.lt_size _ hfree
      omega

theorem reserve (h : p.ValidWith free) (count : Nat) :
    (p.reserveBootstraps count).2.ValidWith
      (free ++ List.range' p.bootstrapMethods.size count) := by
  have hsize : (p.reserveBootstraps count).2.bootstrapMethods.size
      = p.bootstrapMethods.size + count := by
    simp only [reserveBootstraps, Array.size_append, Array.size_replicate]
  -- An entry that is found stands in the table of before.
  have hlt : ∀ (e : BootstrapEntry) (j : UInt16), p.bootstrapIndices[e]? = some j →
      p.bootstrapMethods.size ≤ 0x10000 → j.toNat < p.bootstrapMethods.size := fun e j hj hle =>
    (Array.getElem?_eq_some_iff.1 (h.valid.bootstraps e j hj hle)).1
  constructor
  case valid =>
    refine ⟨h.valid.ordered, h.valid.start_eq, h.valid.next_le, h.valid.indices_eq, ?_⟩
    intro e j hj hle
    rw [hsize] at hle
    simp only [reserveBootstraps] at hj ⊢
    rw [Array.getElem?_append_left (hlt e j hj (by omega))]
    exact h.valid.bootstraps e j hj (by omega)
  case nodup =>
    refine List.nodup_append.2 ⟨h.nodup, List.nodup_range', ?_⟩
    rintro i hi _ hrange rfl
    have hold := h.lt_size i hi
    have hnew := (List.mem_range'_1.1 hrange).1
    omega
  case lt_size =>
    intro i hi
    rw [hsize]
    rcases List.mem_append.1 hi with hold | hnew
    · have := h.lt_size i hold
      omega
    · exact (List.mem_range'_1.1 hnew).2
  case not_found =>
    intro e j hj hle hmem
    rw [hsize] at hle
    rcases List.mem_append.1 hmem with hold | hnew
    · exact h.not_found e j hj (by omega) hold
    · have hj' := hlt e j hj (by omega)
      have := (List.mem_range'_1.1 hnew).1
      omega

theorem fill (h : p.ValidWith free) {index : UInt16} (hindex : index.toNat ∈ free)
    (e : BootstrapEntry) : (p.fillBootstrap index e).ValidWith (free.erase index.toNat) := by
  constructor
  case valid =>
    refine h.valid.fillBootstrap (h.lt_size _ hindex) ?_
    intro e' j hj hsize heq
    exact h.not_found e' j hj hsize (heq ▸ hindex)
  case nodup => exact h.nodup.erase _
  case lt_size =>
    intro i hi
    rw [size_fillBootstrap]
    exact h.lt_size i (List.mem_of_mem_erase hi)
  case not_found =>
    intro e' j hj hsize hmem
    rw [size_fillBootstrap] at hsize
    rcases bootstrapIndices_fillBootstrap hj with ⟨-, rfl⟩ | hj
    · exact h.nodup.not_mem_erase hmem
    · exact h.not_found e' j hj hsize (List.mem_of_mem_erase hmem)

/-- A request keeps the pool valid, if it fills nothing but a reserved entry. -/
theorem answer (h : p.ValidWith free)
    (hfills : ∀ (index : UInt16) (e : BootstrapEntry), request = .fill index e →
      index.toNat ∈ free) : (p.answer request).2.ValidWith (p.unfilled free request) := by
  cases request with
  | constant c => exact h.grows (p.grows_insert_any c)
  | bootstrap e => exact h.grows (p.grows_insertBootstrap_any e).1
  | reserve count => exact h.reserve count
  | fill index e => exact h.fill (hfills index e rfl) e

end ValidWith

section Answers

theorem answers_cons (p : Pool) (request : Request) (requests : List Request) :
    p.answers (request :: requests)
      = ((p.answer request).1 :: ((p.answer request).2.answers requests).1,
        ((p.answer request).2.answers requests).2) := rfl

theorem answers_append (p : Pool) (requests others : List Request) :
    p.answers (requests ++ others)
      = ((p.answers requests).1 ++ ((p.answers requests).2.answers others).1,
        ((p.answers requests).2.answers others).2) := by
  induction requests generalizing p with
  | nil => rfl
  | cons request requests ih =>
    rw [List.cons_append, answers_cons, answers_cons, ih]
    rfl

theorem extends_answers (p : Pool) (requests : List Request) :
    p.Extends (p.answers requests).2 := by
  induction requests generalizing p with
  | nil => exact .refl p
  | cons request requests ih => exact (p.extends_answer request).trans (ih _)

theorem size_answers_le (p : Pool) (requests : List Request) :
    (p.answers requests).2.bootstrapMethods.size
      ≤ p.bootstrapMethods.size + (requests.map Request.added).sum := by
  induction requests generalizing p with
  | nil => exact Nat.le_refl _
  | cons request requests ih =>
    have hfirst := p.size_answer_le request
    have hrest := ih (p.answer request).2
    rw [answers_cons, List.map_cons, List.sum_cons]
    dsimp only
    omega

theorem exists_of_mem_zip {answer : Answer}
    (h : (request, answer) ∈ requests.zip (p.answers requests).1) :
    ∃ before after, requests = before ++ request :: after
      ∧ ((p.answers before).2.answer request).1 = answer := by
  induction requests generalizing p with
  | nil => cases h
  | cons first requests ih =>
    rw [answers_cons, List.zip_cons_cons] at h
    rcases List.mem_cons.1 h with heq | hmem
    · injection heq with hrequest hanswer
      rw [hrequest, hanswer]
      exact ⟨[], requests, rfl, rfl⟩
    · obtain ⟨before, after, hsplit, hanswer⟩ := ih hmem
      exact ⟨first :: before, after, by rw [hsplit]; rfl, hanswer⟩

theorem indices_of_mem_zip {c : Constant} {i : UInt16}
    (h : (.constant c, .ok i) ∈ requests.zip (p.answers requests).1) :
    (p.answers requests).2.indices[c]? = some i := by
  obtain ⟨before, after, rfl, hanswer⟩ := exists_of_mem_zip h
  have hfound : ((p.answers before).2.insert c).2.indices[c]? = some i :=
    (grows_insert anyEntry (Prod.ext hanswer rfl)).2
  rw [answers_append, answers_cons]
  exact (extends_answers _ after).indices c i hfound

theorem bootstrapIndices_of_mem_zip {e : BootstrapEntry} {i : UInt16}
    (h : (.bootstrap e, .ok i) ∈ requests.zip (p.answers requests).1) :
    (p.answers requests).2.bootstrapIndices[e]? = some i := by
  obtain ⟨before, after, rfl, hanswer⟩ := exists_of_mem_zip h
  injection hanswer with hindex
  have hfound := ((p.answers before).2.grows_insertBootstrap_any e).2
  rw [hindex] at hfound
  rw [answers_append, answers_cons]
  exact (extends_answers _ after).bootstrapIndices e i hfound

theorem ValidWith.answers (h : p.ValidWith free) (hfills : p.FillsReserved free requests) :
    (p.answers requests).2.Valid := by
  induction requests generalizing p free with
  | nil => exact h.valid
  | cons request requests ih => exact ih (h.answer hfills.1) hfills.2

theorem FillsReserved.of_append {before after : List Request}
    (h : p.FillsReserved free (before ++ after)) : p.FillsReserved free before := by
  induction before generalizing p free with
  | nil => trivial
  | cons request before ih => exact ⟨h.1, ih h.2⟩

end Answers

theorem indexOf?_of_first {t : ConstantTable} (hordered : t.Ordered) {c : Constant} {slot : Nat}
    (hslot : t.get? slot = some c) (hfirst : ∀ s < slot, t.get? s ≠ some c) :
    t.indexOf? c = some (UInt16.ofNat slot) := by
  have hmem := (SlotTable.get?_eq_some_iff hordered).1 hslot
  obtain ⟨k, hk, hget⟩ := Array.getElem_of_mem hmem
  rw [ConstantTable.indexOf?]
  cases hfind : t.entries.toList.find? (·.2 == c) with
  | none =>
    have habsent := List.find?_eq_none.1 hfind (slot, c) (Array.mem_toList_iff.2 hmem)
    exact absurd (beq_self_eq_true c) habsent
  | some e =>
    obtain ⟨heq, i, hi, hi', hbefore⟩ := List.find?_eq_some_iff_getElem.1 hfind
    have hc : e.2 = c := eq_of_beq heq
    have hentry : (e.1, c) ∈ t.entries :=
      hc ▸ Array.mem_toList_iff.1 (List.mem_of_find?_eq_some hfind)
    -- the entry found is no earlier than the first slot of the constant, and no later
    have hle : slot ≤ e.1 := by
      apply Nat.le_of_not_lt
      intro hlt
      exact hfirst e.1 hlt ((SlotTable.get?_eq_some_iff hordered).2 hentry)
    have hik : i ≤ k := by
      apply Nat.le_of_not_lt
      intro hlt
      have hno := hbefore k hlt
      rw [Array.getElem_toList, hget] at hno
      simp only [beq_self_eq_true, Bool.not_true, Bool.false_eq_true] at hno
    have hge : e.1 ≤ slot := by
      rw [Array.getElem_toList] at hi'
      rcases Nat.eq_or_lt_of_le hik with rfl | hlt
      · exact Nat.le_of_eq (by rw [← hi', hget])
      · have := hordered.increasing i k (by simpa using hi) hk hlt
        rw [hi', hget] at this
        omega
    rw [Option.map_some, Nat.le_antisymm hge hle]

theorem exists_indexOf? {t : ConstantTable} (hordered : t.Ordered) {c : Constant}
    {i : ConstantIndex} (hi : t.get? i.toNat = some c) :
    ∃ j, t.indexOf? c = some j ∧ t.get? j.toNat = some c := by
  have hexists : ∃ slot, t.get? slot = some c := ⟨_, hi⟩
  have hle : Nat.find hexists ≤ i.toNat := Nat.find_min' hexists hi
  have hlt : Nat.find hexists < 2 ^ 16 := Nat.lt_of_le_of_lt hle i.toNat_lt
  refine ⟨_, indexOf?_of_first hordered (Nat.find_spec hexists) fun s => Nat.find_min hexists, ?_⟩
  rw [UInt16.toNat_ofNat_of_lt' hlt]
  exact Nat.find_spec hexists

theorem Valid.insert_eq_of_first (h : p.Valid) {c : Constant} {slot : Nat}
    (hslot : p.constants.get? slot = some c)
    (hfirst : ∀ s < slot, p.constants.get? s ≠ some c) :
    p.insert c = (.ok (UInt16.ofNat slot), p) :=
  insert_eq_of_some ((h.indices_eq c).trans (indexOf?_of_first h.ordered hslot hfirst))

/-- What holds of the requests to a pool, whatever they are and in whatever order they come. -/
structure SoundRun (p : Pool) (requests : List Request) : Prop where
  /-- An index that was answered has the constant at the end. -/
  holds : ∀ (c : Constant) (i : ConstantIndex),
    (.constant c, .ok i) ∈ requests.zip (p.answers requests).1 →
    (p.answers requests).2.constants.get? i.toNat = some c
  /-- Constants are told apart by their index. -/
  index_eq_iff : ∀ (c d : Constant) (i j : ConstantIndex),
    (.constant c, .ok i) ∈ requests.zip (p.answers requests).1 →
    (.constant d, .ok j) ∈ requests.zip (p.answers requests).1 → (i = j ↔ c = d)
  /-- A constant that the pool has is not added, and the first one is the answer. -/
  first_found : ∀ (before after : List Request) (c : Constant) (slot : Nat),
    requests = before ++ .constant c :: after →
    (p.answers before).2.constants.get? slot = some c →
    (∀ s < slot, (p.answers before).2.constants.get? s ≠ some c) →
    (p.answers before).2.answer (.constant c) = (.ok (UInt16.ofNat slot), (p.answers before).2)
  /-- The constants of the pool stay where they are. -/
  kept : ∀ (slot : Nat) (c : Constant), p.constants.get? slot = some c →
    (p.answers requests).2.constants.get? slot = some c
  bootstrap_holds : ∀ (e : BootstrapEntry) (i : UInt16),
    (.bootstrap e, .ok i) ∈ requests.zip (p.answers requests).1 →
    (p.answers requests).2.bootstrapMethods[i.toNat]? = some e
  bootstrap_index_eq_iff : ∀ (e e' : BootstrapEntry) (i j : UInt16),
    (.bootstrap e, .ok i) ∈ requests.zip (p.answers requests).1 →
    (.bootstrap e', .ok j) ∈ requests.zip (p.answers requests).1 → (i = j ↔ e = e')
  /-- A request that fails leaves no trace: the run without it gives the same. -/
  overflow : ∀ (before after : List Request) (request : Request) (e : ClassError),
    requests = before ++ request :: after →
    ((p.answers before).2.answer request).1 = .error e →
    ((p.answers before).2.answer request).2 = (p.answers before).2
      ∧ ∃ rest last, p.answers requests = ((p.answers before).1 ++ .error e :: rest, last)
        ∧ p.answers (before ++ after) = ((p.answers before).1 ++ rest, last)

theorem eq_of_answer_eq_error {e : ClassError} (h : (p.answer request).1 = .error e) :
    (p.answer request).2 = p := by
  cases request with
  | constant c => exact eq_of_insert_eq_error h
  | bootstrap e => cases h
  | reserve count => cases h
  | fill index e => cases h

theorem soundRun_of_validWith (h : p.ValidWith free) (hfills : p.FillsReserved free requests)
    (hsize : (p.answers requests).2.bootstrapMethods.size ≤ 0xFFFF) : p.SoundRun requests := by
  have hvalid := h.answers hfills
  have hget : ∀ {c : Constant} {i : ConstantIndex},
      (.constant c, .ok i) ∈ requests.zip (p.answers requests).1 →
      (p.answers requests).2.constants.get? i.toNat = some c := fun hmem =>
    hvalid.get?_eq_of_indices (indices_of_mem_zip hmem)
  have hentry : ∀ {e : BootstrapEntry} {i : UInt16},
      (.bootstrap e, .ok i) ∈ requests.zip (p.answers requests).1 →
      (p.answers requests).2.bootstrapMethods[i.toNat]? = some e := fun hmem =>
    hvalid.bootstraps _ _ (bootstrapIndices_of_mem_zip hmem) (by omega)
  constructor
  case holds => exact fun _ _ => hget
  case index_eq_iff =>
    intro c d i j hc hd
    constructor
    · rintro rfl
      exact Option.some.inj ((hget hc).symm.trans (hget hd))
    · rintro rfl
      exact Option.some.inj ((indices_of_mem_zip hc).symm.trans (indices_of_mem_zip hd))
  case first_found =>
    intro before after c slot hsplit hslot hfirst
    rw [hsplit] at hfills
    exact (h.answers hfills.of_append).insert_eq_of_first hslot hfirst
  case kept => exact fun slot c => (p.extends_answers requests).get?_eq h.valid hvalid
  case bootstrap_holds => exact fun _ _ => hentry
  case bootstrap_index_eq_iff =>
    intro e e' i j he he'
    constructor
    · rintro rfl
      exact Option.some.inj ((hentry he).symm.trans (hentry he'))
    · rintro rfl
      exact Option.some.inj
        ((bootstrapIndices_of_mem_zip he).symm.trans (bootstrapIndices_of_mem_zip he'))
  case overflow =>
    intro before after request e hsplit herror
    have hsame := eq_of_answer_eq_error herror
    refine ⟨hsame, ((p.answers before).2.answers after).1, ((p.answers before).2.answers after).2,
      ?_, answers_append p before after⟩
    rw [hsplit, answers_append, answers_cons, herror, hsame]

theorem validWith_ofTable {t : ConstantTable} (hordered : t.Ordered) (hstart : t.start = 1)
    (hnext : t.next ≤ 0xFFFF) : (ofTable t).ValidWith [] where
  valid := valid_ofTable hordered hstart hnext
  nodup := List.nodup_nil
  lt_size := fun _ hi => absurd hi List.not_mem_nil
  not_found := fun _ _ _ _ => List.not_mem_nil

/--
Every run of requests to a pool is sound, whether the pool starts empty or with the constants of a
class.
-/
theorem soundRun_ofTable {cs : List Constant} {requests : List Request}
    (hnext : (SlotTable.ofList 1 cs).next ≤ 0xFFFF)
    (hfills : (ofTable (.ofList 1 cs)).FillsReserved [] requests)
    (hsize : ((ofTable (.ofList 1 cs)).answers requests).2.bootstrapMethods.size ≤ 0xFFFF) :
    (ofTable (.ofList 1 cs)).SoundRun requests := by
  have hordered : (SlotTable.ofList 1 cs).Ordered :=
    (SlotTable.ordered_empty 1).append fun c _ => c.width_pos
  exact soundRun_of_validWith (validWith_ofTable hordered (SlotTable.start_append _ cs) hnext)
    hfills hsize

/-- A pool with a constant twice. -/
def twiceNamed : Pool := ofTable (.ofList 1 [.utf8 "A", .long 7, .utf8 "A"])

/-- Two entries are filled in the other order, and one of them is asked for before. -/
def mixedRequests : List Request :=
  [.reserve 2, .constant (.utf8 "A"), .bootstrap ⟨1, [4]⟩, .fill 1 ⟨1, []⟩, .constant (.string 4),
    .fill 0 ⟨1, [4]⟩, .bootstrap ⟨1, []⟩]

theorem soundRun_mixedRequests :
    (SlotTable.ofList 1 [Constant.utf8 "A", .long 7, .utf8 "A"]).next ≤ 0xFFFF
      ∧ twiceNamed.FillsReserved [] mixedRequests
      ∧ (twiceNamed.answers mixedRequests).2.bootstrapMethods.size ≤ 0xFFFF
      ∧ twiceNamed.SoundRun mixedRequests := by
  have hnext : (SlotTable.ofList 1 [Constant.utf8 "A", .long 7, .utf8 "A"]).next ≤ 0xFFFF := by
    decide
  have hfills : twiceNamed.FillsReserved [] mixedRequests := by
    simp [twiceNamed, mixedRequests, FillsReserved, unfilled, ofTable, List.range']
  have hsize : (twiceNamed.answers mixedRequests).2.bootstrapMethods.size ≤ 0xFFFF :=
    Nat.le_trans (size_answers_le twiceNamed mixedRequests) (by decide)
  exact ⟨hnext, hfills, hsize, soundRun_ofTable hnext hfills hsize⟩

end Pool

end ClassPatch
