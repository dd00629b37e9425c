import EditScope.Codec.Patch
import EditScope.Codec.SettingsText
import EditScope.Proofs.Change.Order
import EditScope.Proofs.Codec.Respelled

set_option autoImplicit false

namespace EditScope

open Codec

variable {d : Dialect} {v : Json}

theorem Declaration.Kind.reads (k : Declaration.Kind) : Reads ofJson? k.toJson k :=
  reads_constant (by cases k <;> decide)

theorem PatchKind.reads (k : PatchKind) : Reads ofJson? k.toJson k :=
  reads_constant (by cases k <;> decide)

theorem Change.Kind.reads (k : Change.Kind) : Reads ofJson? k.toJson k :=
  reads_constant (by cases k <;> decide)

theorem Overloads.reads (o : Overloads) : Reads (ofJson? d) o.toJson o :=
  reads_constant (by cases o <;> decide)

theorem EditRange.reads (r : EditRange) : Reads ofJson? r.toJson r := by
  intro w form
  obtain ⟨_, _ | ⟨start, _ | ⟨stop, ⟨⟩⟩⟩, slots⟩ :=
    slots?_of_respelled .json false ["start", "end"] form rfl (by decide)
  simp [ofJson?, slots, Slot.required, reads_nat _ _ start, reads_nat _ _ stop]

theorem Hunk.reads (h : Hunk) : Reads ofJson? h.toJson h := by
  intro w form
  obtain ⟨_, _ | ⟨deleted, _ | ⟨added, ⟨⟩⟩⟩, slots⟩ :=
    slots?_of_respelled .json false ["deleted", "added"] form rfl (by decide)
  have side := reads_optional EditRange.reads rfl
  simp [ofJson?, slots, side _ _ deleted, side _ _ added]

theorem Snapshot.reads (s : Snapshot) : Reads ofJson? s.toJson s := by
  intro w form
  obtain ⟨_, _ | ⟨path, _ | ⟨revision, ⟨⟩⟩⟩, slots⟩ :=
    slots?_of_respelled .json false ["path", "revision"] form rfl (by decide)
  simp [ofJson?, slots, Slot.required, reads_str _ _ path, reads_str _ _ revision]

theorem Patch.reads (p : Patch) : Reads ofJson? p.toJson p := by
  intro w form
  obtain ⟨_, _ | ⟨status, _ | ⟨old, _ | ⟨new, _ | ⟨hunks, ⟨⟩⟩⟩⟩⟩, slots⟩ :=
    slots?_of_respelled .json false ["status", "old", "new", "hunks"] form rfl (by decide)
  have version := reads_optional Snapshot.reads rfl
  simp [ofJson?, slots, Slot.required, Slot.withDefault, PatchKind.reads _ _ status,
    version _ _ old, version _ _ new, reads_list Hunk.reads _ _ hunks]

theorem NamePart.reads (p : NamePart) : Reads ofJson? p.toJson p := by
  intro w form
  obtain ⟨_, _ | ⟨kind, _ | ⟨name, ⟨⟩⟩⟩, slots⟩ :=
    slots?_of_respelled .json false ["kind", "name"] form rfl (by decide)
  simp [ofJson?, slots, Slot.required, Declaration.Kind.reads _ _ kind, reads_str _ _ name]

namespace QualifiedName

theorem reads (n : QualifiedName) : Reads ofJson? n.toJson n := by
  intro w form
  rw [ofJson?, reads_list NamePart.reads n.parts w form, Option.bind_some]
  exact ofInnermost?_eq_some.2 rfl

theorem exists_items_of_ofJson? {n : QualifiedName} (read : ofJson? v = some n) :
    ∃ items, v = .arr items ∧ items ≠ [] ∧ items.mapM NamePart.ofJson? = some n.parts := by
  obtain ⟨parts, listed, whole⟩ := Option.bind_eq_some_iff.1 read
  cases v
  case arr items =>
    rw [← ofInnermost?_eq_some.1 whole] at listed
    refine ⟨items, rfl, ?_, listed⟩
    rintro rfl
    cases listed
  all_goals cases listed

end QualifiedName

theorem Change.reads (c : Change) : Reads ofJson? c.toJson c := by
  intro w form
  obtain ⟨_, _ | ⟨declaration, _ | ⟨kind, ⟨⟩⟩⟩, slots⟩ :=
    slots?_of_respelled .json false ["identifier", "kind"] form rfl (by decide)
  simp [ofJson?, slots, Slot.required, QualifiedName.reads _ _ declaration, Kind.reads _ _ kind]

theorem FileChanges.reads {p : FileChanges}
    (ascends : p.changes.Pairwise fun c d => compare c d = .lt) : Reads ofJson? p.toJson p := by
  intro w form
  obtain ⟨_, _ | ⟨oldPath, _ | ⟨newPath, _ | ⟨status, _ | ⟨changes, ⟨⟩⟩⟩⟩⟩, slots⟩ :=
    slots?_of_respelled .json false ["old_path", "new_path", "status", "changes"] form rfl (by decide)
  have path := reads_optional reads_str rfl
  have sorted : Change.sorted p.changes = p.changes := ascending_eq_self ascends
  simp [ofJson?, slots, Slot.required, path _ _ oldPath, path _ _ newPath, PatchKind.reads _ _ status,
    reads_list Change.reads _ _ changes, sorted]

theorem OutlineSettings.reads (s : OutlineSettings) : Reads (ofJson? d) s.toJson s := by
  intro w form
  obtain ⟨_, _ | ⟨unitName, _ | ⟨overloads, ⟨⟩⟩⟩, slots⟩ :=
    slots?_of_respelled d false fieldNames form rfl (by decide)
  simp [ofJson?, slots, Slot.withDefault, reads_str _ _ unitName, Overloads.reads _ _ overloads]

namespace Settings

theorem reads (s : Settings) : Reads (ofJson? d) s.toJson s := by
  intro w form
  obtain ⟨_, _ | ⟨outline, _ | ⟨extensions, _ | ⟨sourceRoots, _ | ⟨parallel, ⟨⟩⟩⟩⟩⟩, slots⟩ :=
    slots?_of_respelled d true fieldNames form rfl (by decide)
  have texts := reads_list reads_str
  simp [ofJson?, slots, Slot.withDefault, OutlineSettings.reads _ _ outline, texts _ _ extensions,
    texts _ _ sourceRoots, reads_bool _ _ parallel]

theorem accept_some (stage : ReadStage) (s : Settings) :
    (accept stage (some s) = .ok s ↔ s.validate = .ok ()) ∧
      ∀ e, accept stage (some s) = .error (.invalid e) ↔ s.validate = .error e := by
  rw [accept]
  cases s.validate <;> simp

end Settings

namespace Codec

theorem written_is_read_back (d : Dialect) :
    (∀ p : Patch, Reads Patch.ofJson? p.toJson p) ∧
      (∀ p : FileChanges, (p.changes.Pairwise fun c c' => compare c c' = .lt) →
        Reads FileChanges.ofJson? p.toJson p) ∧
      (∀ v n, QualifiedName.ofJson? v = some n →
        ∃ items, v = .arr items ∧ items ≠ [] ∧ items.mapM NamePart.ofJson? = some n.parts) ∧
      ∀ s : Settings, Reads (Settings.ofJson? d) s.toJson s ∧
        ∀ stage w, Json.Respelled s.toJson w →
          (Settings.accept stage (Settings.ofJson? d w) = .ok s ↔ s.validate = .ok ()) ∧
            ∀ e, Settings.accept stage (Settings.ofJson? d w) = .error (.invalid e) ↔
              s.validate = .error e := by
  refine ⟨Patch.reads, fun p => FileChanges.reads, fun v n => QualifiedName.exists_items_of_ofJson?,
    fun s => ⟨s.reads, fun stage w form => ?_⟩⟩
  rw [s.reads w form]
  exact Settings.accept_some stage s

theorem written_is_read_back_in_order :
    let unit : QualifiedName := ⟨⟨.unit, "p"⟩, []⟩
    let type : QualifiedName := ⟨⟨.type, "A"⟩, [⟨.unit, "p"⟩]⟩
    let p : FileChanges := ⟨none, some "A.java", .added, [⟨unit, .add⟩, ⟨type, .add⟩]⟩
    let change (parts : List Json) : Json := .arr [.arr parts, .str "add"]
    let w : Json := .arr [.null, .str "A.java", .str "added",
      .arr [change [unit.self.toJson], change [type.self.toJson, .arr [.str "Unit", .str "p"]]]]
    FileChanges.ofJson? w = some p ∧
      Settings.accept .json (Settings.ofJson? .json (Settings.toJson { extensions := [] })) =
        .error (.invalid .noExtensions) := by
  intro unit type p change w
  obtain ⟨_, changes, _, settings⟩ := written_is_read_back .json
  have whole (v : Json) : List.Forall₂ Json.Respelled [v] [v] := .cons (.same v) .nil
  have add : List.Forall₂ Json.Respelled [Change.Kind.toJson .add] [.str "add"] := whole _
  have form : Json.Respelled p.toJson w := by
    refine .inOrder (.cons (.same _) (.cons (.same _) (.cons (.same _) (.cons (.items ?_) .nil))))
    refine .cons (.inOrder (.cons (.items ?_) add)) (.cons (.inOrder (.cons (.items ?_) add)) .nil)
    · exact whole _
    · exact .cons (.same _) (.cons (.inOrder (.cons (.same _) (whole _))) .nil)
  exact ⟨changes p (by decide) w form,
    ((settings { extensions := [] }).2 .json _ (.same _)).2 .noExtensions |>.2 (by decide)⟩

end Codec

end EditScope
