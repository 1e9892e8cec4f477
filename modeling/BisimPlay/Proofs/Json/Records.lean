import BisimPlay.Json.Records
import BisimPlay.Proofs.Json.Reading

/-!
# Texts of the game's types

Every value of a written type is read back from its text. A type needs two things for this: its
values have exact forms, so that nothing is lost between form and text, and each form stands for
the value that it came from. `LawfulWritten` says so, and `LawfulWritten.ofText?_text` puts the
two together. The instances follow those of `Written`, shape by shape: words, names of cases,
records and cases with contents.
-/

namespace BisimPlay

namespace Json

theorem isExact_ofString (s : String) : (ofString s).IsExact := .string s.toList

theorem isExact_ofFields {fields : List (String × Json)} (h : ∀ field ∈ fields, field.2.IsExact) :
    (ofFields fields).IsExact := by
  refine .object (fun member hmember => ?_) fun member hmember => ?_ <;>
    obtain ⟨field, hfield, rfl⟩ := List.mem_map.1 hmember
  · rfl
  · exact h field hfield

theorem isExact_tagged {content : Json} (name : String) (h : content.IsExact) :
    (tagged name content).IsExact :=
  isExact_ofFields fun field hfield => by rwa [List.mem_singleton.1 hfield]

theorem isExact_ofOption {α : Type} {toJson : α → Json} (h : ∀ a, (toJson a).IsExact)
    (value : Option α) : (ofOption toJson value).IsExact := by
  cases value with
  | none => exact .null
  | some a => exact h a

@[simp] theorem case?_ofString (s : String) : case? (ofString s) = some (s, none) := by
  simp [case?, ofString]

@[simp] theorem case?_tagged (name : String) (content : Json) :
    case? (tagged name content) = some (name, some content) := by
  simp [case?, tagged, ofFields]

theorem mapM_eq_some_map {α β : Type} {read : α → Option β} {value : α → β} {list : List α}
    (h : ∀ a ∈ list, read a = some (value a)) : list.mapM read = some (list.map value) := by
  induction list with
  | nil => rfl
  | cons a rest ih =>
      have hrest := ih fun b hb => h b (List.mem_cons_of_mem a hb)
      simp [h a List.mem_cons_self, hrest]

theorem valuesAt_map (name : String) (fields : List (String × Json)) :
    valuesAt name.toList (fields.map fun field => (some field.1.toList, field.2)) =
      (fields.filter fun field => field.1 = name).map Prod.snd := by
  rw [valuesAt, List.filter_map, List.map_map]
  simp only [Function.comp_def, Option.some.injEq, String.toList_inj]

theorem valuesAt_of_mem {fields : List (String × Json)} (hnodup : (fields.map Prod.fst).Nodup)
    {field : String × Json} (hmem : field ∈ fields) :
    valuesAt field.1.toList (fields.map fun field => (some field.1.toList, field.2)) =
      [field.2] := by
  rw [valuesAt_map]
  induction fields with
  | nil => exact absurd hmem List.not_mem_nil
  | cons other rest ih =>
      obtain ⟨hnew, hrest⟩ := List.nodup_cons.1 hnodup
      rcases List.mem_cons.1 hmem with rfl | hlater
      · have hnone : (rest.filter fun other => other.1 = field.1) = [] := by
          refine List.filter_eq_nil_iff.2 fun other hother heq => hnew ?_
          exact of_decide_eq_true heq ▸ List.mem_map_of_mem hother
        simp [hnone]
      · have hne : other.1 ≠ field.1 := fun heq => hnew (heq ▸ List.mem_map_of_mem hlater)
        simp [hne, ih hrest hlater]

theorem fields?_ofFields {names : List String} {fields : List (String × Json)}
    (hnames : fields.map Prod.fst = names) (hnodup : names.Nodup) :
    fields? names (ofFields fields) = some (fields.map fun field => some field.2) := by
  subst hnames
  have hspelled : (fields.map fun field : String × Json => (some field.1.toList, field.2)).all
      (fun member => member.1.isSome) = true := by
    simp
  have hfound : ∀ field ∈ fields, field? (fields.map fun field => (some field.1.toList, field.2))
      field.1 = some (some field.2) := by
    intro field hfield
    rw [field?, valuesAt_of_mem hnodup hfield]
  have hread := mapM_eq_some_map hfound
  simp only [ofFields, fields?, if_pos hspelled, List.mapM_map]
  exact hread

end Json

open Json

/-- Types whose values are read back from their texts. -/
class LawfulWritten (α : Type) [Written α] : Prop where
  /-- The form of a value is not lost when it is written. -/
  isExact_toJson : ∀ a : α, (Written.toJson a).IsExact
  /-- The form of a value stands for it. -/
  ofJson?_toJson : ∀ a : α, Written.ofJson? (Written.toJson a) = some a

namespace LawfulWritten

variable {α : Type} [Written α] [LawfulWritten α]

theorem ofText?_text (a : α) : Written.ofText? (Written.text a) = some a := by
  rw [Written.ofText?, Written.text, read?_write (isExact_toJson a), Option.bind_some,
    ofJson?_toJson]

attribute [simp] ofJson?_toJson

@[simp] theorem required?_toJson (a : α) :
    required? Written.ofJson? (some (Written.toJson a)) = some a :=
  ofJson?_toJson a

theorem list?_map_toJson (list : List α) :
    list? Written.ofJson? (.array (list.map Written.toJson)) = some list := by
  rw [list?, List.mapM_map]
  have hread : list.mapM (fun a => Written.ofJson? (Written.toJson a)) =
      some (list.map fun a => a) :=
    mapM_eq_some_map fun a _ => ofJson?_toJson a
  rwa [List.map_id'] at hread

/-- An optional field is read back when no value of it is written as `null`. -/
theorem omissible?_ofOption (hnull : ∀ a : α, Written.toJson a ≠ Json.null) (value : Option α) :
    omissible? Written.ofJson? (some (ofOption Written.toJson value)) = some value := by
  cases value with
  | none => rfl
  | some a =>
      have hread : optional? (α := α) Written.ofJson? (Written.toJson a) =
          (Written.ofJson? (Written.toJson a)).map some := by
        unfold optional?
        split
        · next heq => exact absurd heq (hnull a)
        · rfl
      rw [omissible?, ofOption, hread, ofJson?_toJson]
      rfl

end LawfulWritten

open LawfulWritten

instance : LawfulWritten UInt32 where
  isExact_toJson word := .natural _
  ofJson?_toJson word := by
    have := word.toNat_lt
    simp [Written.ofJson?, Written.toJson, natBelow?, this]

instance : LawfulWritten UInt64 where
  isExact_toJson word := .natural _
  ofJson?_toJson word := by
    have := word.toNat_lt
    simp [Written.ofJson?, Written.toJson, natBelow?, this]

instance : LawfulWritten Bool where
  isExact_toJson b := .bool b
  ofJson?_toJson _ := rfl

instance : LawfulWritten String where
  isExact_toJson s := isExact_ofString s
  ofJson?_toJson s := text?_ofString s

instance : LawfulWritten ProcessId where
  isExact_toJson p := isExact_toJson p.word
  ofJson?_toJson p := by
    unfold writtenProcessId
    simp

instance : LawfulWritten NodeId where
  isExact_toJson n := isExact_toJson n.word
  ofJson?_toJson n := by
    unfold writtenNodeId
    simp

instance : LawfulWritten Level where
  isExact_toJson level := isExact_toJson level.word
  ofJson?_toJson level := by
    unfold writtenLevel
    simp

instance : LawfulWritten Action where
  isExact_toJson a := isExact_toJson a.label
  ofJson?_toJson a := by
    unfold writtenAction
    simp

instance : LawfulWritten Role where
  isExact_toJson role := by cases role <;> exact isExact_ofString _
  ofJson?_toJson role := by
    unfold writtenRole
    cases role <;> simp [Written.caseNamed?, isEmptyContent]

instance : LawfulWritten Side where
  isExact_toJson side := by cases side <;> exact isExact_ofString _
  ofJson?_toJson side := by
    unfold writtenSide
    cases side <;> simp [Written.caseNamed?, isEmptyContent]

instance : LawfulWritten Semantics where
  isExact_toJson semantics := by cases semantics <;> exact isExact_ofString _
  ofJson?_toJson semantics := by
    unfold writtenSemantics
    cases semantics <;> simp [Written.caseNamed?, isEmptyContent]

instance : LawfulWritten Marking where
  isExact_toJson marking := by cases marking <;> exact isExact_ofString _
  ofJson?_toJson marking := by
    unfold writtenMarking
    cases marking <;> simp [Written.caseNamed?, isEmptyContent]

theorem toJson_word_ne_null (word : UInt64) : Written.toJson word ≠ .null := Json.noConfusion

theorem toJson_action_ne_null (a : Action) : Written.toJson a ≠ .null := Json.noConfusion

theorem toJson_side_ne_null (side : Side) : Written.toJson side ≠ .null := by
  cases side <;> exact Json.noConfusion

instance : LawfulWritten Transition where
  isExact_toJson step := isExact_ofFields (by simp [isExact_toJson])
  ofJson?_toJson step := by
    unfold writtenTransition
    simp [fields?_ofFields]

instance : LawfulWritten Move where
  isExact_toJson move := isExact_ofFields (by simp [isExact_toJson])
  ofJson?_toJson move := by
    unfold writtenMove
    simp [fields?_ofFields]

instance : LawfulWritten Ranking where
  isExact_toJson ranking :=
    isExact_ofFields fun field hfield => by
      rw [List.mem_singleton.1 hfield]
      refine .array fun item hitem => ?_
      obtain ⟨level, _, rfl⟩ := List.mem_map.1 hitem
      exact isExact_toJson level
  ofJson?_toJson ranking := by
    unfold writtenRanking
    simp [fields?_ofFields, required?, list?_map_toJson]

instance : LawfulWritten Phase where
  isExact_toJson phase := by
    cases phase with
    | unstarted => exact isExact_ofString _
    | toMove role => exact isExact_tagged _ (isExact_toJson role)
    | finished winner =>
        exact isExact_tagged _ (isExact_ofFields (by simp [isExact_toJson]))
    | aborted reason => exact isExact_tagged _ (isExact_ofString reason)
  ofJson?_toJson phase := by
    unfold writtenPhase
    cases phase <;> simp [fields?_ofFields, isEmptyContent]

instance : LawfulWritten Turn where
  isExact_toJson turn :=
    isExact_ofFields (by simp [isExact_toJson, isExact_ofOption])
  ofJson?_toJson turn := by
    have haction := omissible?_ofOption toJson_action_ne_null turn.lastAction
    have hside := omissible?_ofOption toJson_side_ne_null turn.lastSide
    unfold writtenTurn
    simp [fields?_ofFields, haction, hside]

instance : LawfulWritten Entry where
  isExact_toJson entry := by
    cases entry with
    | round number => exact isExact_tagged _ (isExact_toJson number)
    | play role move destination =>
        exact isExact_tagged _ (isExact_ofFields (by simp [isExact_toJson, isExact_ofString]))
    | winner role => exact isExact_tagged _ (isExact_toJson role)
  ofJson?_toJson entry := by
    unfold writtenEntry
    cases entry <;> simp [fields?_ofFields, required?]

instance : LawfulWritten Settings where
  isExact_toJson settings :=
    isExact_ofFields (by simp [isExact_toJson, isExact_ofOption])
  ofJson?_toJson settings := by
    have hseed := omissible?_ofOption toJson_word_ne_null settings.seed
    unfold writtenSettings
    simp [fields?_ofFields, hseed]

def IsReadable (α : Type) [Written α] : Prop :=
  ∀ a : α, Written.ofText? (Written.text a) = some a

/-- All values of the written types of a game are read back from their texts, whatever strings,
words and optional values they hold. -/
theorem isReadable_written_types :
    (IsReadable Move ∧ IsReadable Transition ∧ IsReadable Turn ∧ IsReadable Phase ∧
      IsReadable Entry ∧ IsReadable Settings ∧ IsReadable Ranking) ∧
    (IsReadable Level ∧ IsReadable Marking ∧ IsReadable Action ∧ IsReadable ProcessId ∧
      IsReadable NodeId) ∧
    IsReadable Role ∧ IsReadable Side ∧ IsReadable Semantics := by
  refine ⟨⟨?_, ?_, ?_, ?_, ?_, ?_, ?_⟩, ⟨?_, ?_, ?_, ?_, ?_⟩, ?_, ?_, ?_⟩ <;>
    exact LawfulWritten.ofText?_text

end BisimPlay
