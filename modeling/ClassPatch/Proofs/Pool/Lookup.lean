import ClassPatch.Pool.Lookup
import ClassPatch.Proofs.Run

/-!
What stands in a table where a lookup succeeds.
-/

namespace ClassPatch.ConstantTable

variable {t : ConstantTable} {i : ConstantIndex}

theorem constant_eq_ok {c : Constant} : t.constant i = .ok c ↔ t.get? i.toNat = some c := by
  unfold constant
  cases t.get? i.toNat <;> simp

theorem constant_of_utf8 {text : String} (h : t.utf8 i = .ok text) :
    t.constant i = .ok (.utf8 text) := by
  unfold utf8 at h
  obtain ⟨c, hc, h⟩ := bind_eq_ok.1 h
  split at h
  · obtain rfl := pure_eq_ok.1 h
    exact hc
  · cases h

theorem utf8_of_constant {text : String} (h : t.constant i = .ok (.utf8 text)) :
    t.utf8 i = .ok text := by
  unfold utf8
  rw [h]
  rfl

theorem exists_of_className {text : String} (h : t.className i = .ok text) :
    ∃ j, t.constant i = .ok (.classRef j) ∧ t.constant j = .ok (.utf8 text) := by
  unfold className at h
  obtain ⟨c, hc, h⟩ := bind_eq_ok.1 h
  split at h
  · exact ⟨_, hc, constant_of_utf8 h⟩
  · cases h

theorem exists_of_nameAndType {name descriptor : String}
    (h : t.nameAndType i = .ok (name, descriptor)) :
    ∃ j k, t.constant i = .ok (.nameAndType j k) ∧ t.constant j = .ok (.utf8 name)
      ∧ t.constant k = .ok (.utf8 descriptor) := by
  unfold nameAndType at h
  obtain ⟨c, hc, h⟩ := bind_eq_ok.1 h
  split at h
  · obtain ⟨text, htext, h⟩ := bind_eq_ok.1 h
    obtain ⟨text', htext', h⟩ := bind_eq_ok.1 h
    cases pure_eq_ok.1 h
    exact ⟨_, _, hc, constant_of_utf8 htext, constant_of_utf8 htext'⟩
  · cases h

theorem constant_of_integer {value : Int32} (h : t.integer i = .ok value) :
    t.constant i = .ok (.integer value) := by
  unfold integer at h
  obtain ⟨c, hc, h⟩ := bind_eq_ok.1 h
  split at h
  · obtain rfl := pure_eq_ok.1 h
    exact hc
  · cases h

theorem constant_of_float {value : Float32Bits} (h : t.float i = .ok value) :
    t.constant i = .ok (.float value) := by
  unfold float at h
  obtain ⟨c, hc, h⟩ := bind_eq_ok.1 h
  split at h
  · obtain rfl := pure_eq_ok.1 h
    exact hc
  · cases h

theorem constant_of_long {value : Int64} (h : t.long i = .ok value) :
    t.constant i = .ok (.long value) := by
  unfold long at h
  obtain ⟨c, hc, h⟩ := bind_eq_ok.1 h
  split at h
  · obtain rfl := pure_eq_ok.1 h
    exact hc
  · cases h

theorem constant_of_double {value : Float64Bits} (h : t.double i = .ok value) :
    t.constant i = .ok (.double value) := by
  unfold double at h
  obtain ⟨c, hc, h⟩ := bind_eq_ok.1 h
  split at h
  · obtain rfl := pure_eq_ok.1 h
    exact hc
  · cases h

end ClassPatch.ConstantTable
