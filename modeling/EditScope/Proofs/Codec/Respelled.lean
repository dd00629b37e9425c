import EditScope.Codec.Basic
import Mathlib.Data.List.Forall2
import Mathlib.Data.List.Nodup

set_option autoImplicit false

namespace EditScope

/-- Fields by name in another order, or their values alone in the order of the fields. -/
inductive Json.Respelled : Json → Json → Prop where
  | same (v : Json) : Respelled v v
  | items {items items' : List Json} (each : List.Forall₂ Respelled items items') :
    Respelled (.arr items) (.arr items')
  | named {fields fields' : List (String × Json)} {values : List Json}
    (each : List.Forall₂ Respelled (fields.map Prod.snd) values)
    (order : ((fields.map Prod.fst).zip values).Perm fields') :
    Respelled (.obj fields) (.obj fields')
  | inOrder {fields : List (String × Json)} {values : List Json}
    (each : List.Forall₂ Respelled (fields.map Prod.snd) values) :
    Respelled (.obj fields) (.arr values)

namespace Json

variable {fields fields' : List (String × Json)} {w : Json}

theorem forall₂_respelled (items : List Json) : List.Forall₂ Respelled items items :=
  List.forall₂_same.2 fun v _ => .same v

theorem Respelled.exists_items {items : List Json} (form : Respelled (.arr items) w) :
    ∃ items', w = .arr items' ∧ List.Forall₂ Respelled items items' := by
  cases form with
  | same => exact ⟨items, rfl, forall₂_respelled items⟩
  | items each => exact ⟨_, rfl, each⟩

theorem Respelled.exists_values (form : Respelled (.obj fields) w) :
    ∃ values, List.Forall₂ Respelled (fields.map Prod.snd) values ∧
      (w = .arr values ∨
        ∃ fields', ((fields.map Prod.fst).zip values).Perm fields' ∧ w = .obj fields') := by
  cases form with
  | same =>
    refine ⟨_, forall₂_respelled _, .inr ⟨fields, ?_, rfl⟩⟩
    rw [← List.zip_of_prod rfl rfl]
  | named each order => exact ⟨_, each, .inr ⟨_, order, rfl⟩⟩
  | inOrder each => exact ⟨_, each, .inl rfl⟩

theorem field?_eq_some (distinct : (fields.map Prod.fst).Nodup) {f : String × Json}
    (mem : f ∈ fields) : field? fields f.1 = some f.2 := by
  have found : fields.find? (·.1 == f.1) = some f := by
    refine List.find?_eq_some_iff_append.2 ⟨by simp, ?_⟩
    obtain ⟨before, after, rfl⟩ := List.append_of_mem mem
    refine ⟨before, after, rfl, fun g earlier => ?_⟩
    rw [List.map_append, List.nodup_append] at distinct
    simpa using distinct.2.2 g.1 (List.mem_map_of_mem earlier) f.1 (by simp)
  rw [field?, found, Option.map_some]

theorem countP_key_le_one (distinct : (fields.map Prod.fst).Nodup) (key : String) :
    fields.countP (·.1 == key) ≤ 1 := by
  have once := List.nodup_iff_count_le_one.1 distinct key
  rwa [List.count, List.countP_map] at once

end Json

namespace Codec

variable {α : Type} {d : Dialect} {decode : Decoder α} {encode : α → Json}

def Reads (decode : Decoder α) (v : Json) (a : α) : Prop :=
  ∀ w, Json.Respelled v w → decode w = some a

theorem reads_str (s : String) : Reads Json.str? (.str s) s := by
  intro w form
  cases form; rfl

theorem reads_bool (b : Bool) : Reads Json.bool? (.bool b) b := by
  intro w form
  cases form; rfl

theorem reads_nat (n : Nat) : Reads Json.nat? (.ofNat n) n := by
  intro w form
  cases form
  simp [Json.nat?, Json.ofNat]

theorem reads_constant {values : List α} {name : α → String} {a : α}
    (found : values.find? (name · == name a) = some a) :
    Reads (constant d values name) (.str (name a)) a := by
  intro w form
  cases form
  exact found

theorem reads_list (each : ∀ a, Reads decode (encode a) a) (as : List α) :
    Reads (list decode) (.ofList encode as) as := by
  intro w form
  obtain ⟨items, rfl, forms⟩ := form.exists_items
  rw [List.forall₂_map_left_iff] at forms
  rw [list]
  clear form
  induction forms with
  | nil => rfl
  | cons form _ ih => simp [each _ _ form, ih]

theorem reads_optional (each : ∀ a, Reads decode (encode a) a) (refused : decode .null = none)
    (a : Option α) : Reads (fun v => (Slot.given v).optional decode) (.ofOption encode a) a := by
  intro w form
  cases a with
  | none => cases form; rfl
  | some a =>
    have read : decode w = some a := each a w form
    cases w
    case null => simp [refused] at read
    all_goals simp [Slot.optional, read]

theorem slots?_obj {fields : List (String × Json)} {names : List String} {closed : Bool}
    (distinct : names.Nodup) (keys : names.Perm (fields.map Prod.fst)) :
    slots? d closed names (.obj fields) =
      some (names.map fun name => ((Json.field? fields name).map .given).getD .leftOut) := by
  have known : fields.any (!names.contains ·.1) = false := by
    rw [List.any_eq_false]
    intro f mem
    simpa using keys.mem_iff.2 (List.mem_map_of_mem mem)
  have once : names.any (fun name => 1 < fields.countP (·.1 == name)) = false := by
    rw [List.any_eq_false]
    intro name _
    simpa using Json.countP_key_le_one (keys.nodup distinct) name
  rw [slots?, known, once, Bool.and_false]
  rfl

theorem slots?_of_respelled (d : Dialect) (closed : Bool) (names : List String)
    {fields : List (String × Json)} {w : Json} (form : Json.Respelled (.obj fields) w)
    (keys : fields.map Prod.fst = names) (distinct : names.Nodup) :
    ∃ values, List.Forall₂ Json.Respelled (fields.map Prod.snd) values ∧
      slots? d closed names w = some (values.map .given) := by
  obtain ⟨values, each, rfl | ⟨fields', order, rfl⟩⟩ := form.exists_values
  all_goals
    refine ⟨values, each, ?_⟩
    have length : names.length = values.length := by simp [← keys, ← each.length_eq]
  · rw [slots?, if_neg (by simp [length]), Option.some_inj]
    refine List.ext_getElem (by simp [length]) fun i inNames inValues => ?_
    rw [List.length_map] at inValues
    simp [inValues]
  · rw [keys] at order
    have keys' : names.Perm (fields'.map Prod.fst) := by
      have := order.map Prod.fst
      rwa [List.map_fst_zip (Nat.le_of_eq length)] at this
    rw [slots?_obj distinct keys', Option.some_inj]
    refine List.ext_getElem (by simp [length]) fun i inNames inValues => ?_
    rw [List.length_map] at inNames inValues
    have mem : (names[i], values[i]) ∈ fields' :=
      order.mem_iff.1 (List.mem_iff_getElem.2 ⟨i, by rw [List.length_zip]; omega, List.getElem_zip⟩)
    have found := Json.field?_eq_some (keys'.nodup distinct) mem
    simp [found]

end Codec

end EditScope
