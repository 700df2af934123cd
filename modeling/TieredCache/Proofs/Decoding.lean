import Mathlib.Data.List.Forall2
import TieredCache.Config.Writer
import TieredCache.Json.Reading
import TieredCache.Proofs.DurationRoundTrip
import TieredCache.Proofs.JsonText

/-!
# Typed values read from their JSON values

A decoder reads a value wherever it is written if every outline of it will do. A record that is
written with all its fields in order is read field by field, each into the record that the fields
before it have made.
-/

namespace TieredCache.Json

/-- The decoder makes `a` of the value `v`, wherever that is written. -/
def Decodes {α : Type} (decode : Outline → Except ReadError α) (v : Value) (a : α) : Prop :=
  ∀ o : Outline, o.value? = .ok v → decode o = .ok a

/-! ### Outlines of values -/

/-- The outlines of a value: they differ in their places only. -/
def Outline.Spells (o : Outline) : Value → Prop
  | .null => ∃ p, o = .null p
  | .bool b => ∃ p, o = .bool b p
  | .number n => ∃ p, o = .number (.ok n) p
  | .string s => ∃ p, o = .string (.ok s) p
  | .array values => ∃ items p, o = .array items none p ∧ itemValues? items = .ok values
  | .object values => ∃ fields p, o = .object fields none p ∧ fieldValues? fields = .ok values

theorem Outline.spells {o : Outline} {v : Value} (h : o.value? = .ok v) : o.Spells v := by
  cases o with
  | null p =>
    obtain rfl := Except.ok.inj h
    exact ⟨p, rfl⟩
  | bool b p =>
    obtain rfl := Except.ok.inj h
    exact ⟨p, rfl⟩
  | number n p =>
    cases n with
    | error f => contradiction
    | ok n =>
      obtain rfl := Except.ok.inj h
      exact ⟨p, rfl⟩
  | string s p =>
    cases s with
    | error f => contradiction
    | ok s =>
      obtain rfl := Except.ok.inj h
      exact ⟨p, rfl⟩
  | array items openEnd p =>
    unfold Outline.value? at h
    split at h
    · rename_i values hitems
      obtain rfl := Except.ok.inj h
      exact ⟨items, p, rfl, hitems⟩
    · contradiction
    · contradiction
  | object fields openEnd p =>
    unfold Outline.value? at h
    split at h
    · rename_i values hfields
      obtain rfl := Except.ok.inj h
      exact ⟨fields, p, rfl, hfields⟩
    · contradiction
    · contradiction
  | broken b start => contradiction

theorem forall₂_of_fieldValues? {fields : List (FieldName × Outline)}
    {values : List (String × Value)} (h : fieldValues? fields = .ok values) :
    List.Forall₂ (fun f v => f.1.text = .ok v.1 ∧ f.2.value? = .ok v.2) fields values := by
  induction fields generalizing values with
  | nil =>
    obtain rfl := Except.ok.inj h
    exact .nil
  | cons f fields ih =>
    unfold fieldValues? at h
    split at h
    · contradiction
    · contradiction
    · rename_i name behind o rest heq
      obtain ⟨rfl, rfl⟩ := List.cons.inj heq
      split at h
      · contradiction
      · rename_i v ho
        cases hrest : fieldValues? fields with
        | error f =>
          rw [hrest] at h
          contradiction
        | ok more =>
          rw [hrest] at h
          obtain rfl := Except.ok.inj h
          exact .cons ⟨rfl, ho⟩ (ih hrest)

/-! ### Single values -/

theorem decodes_natural (expected : String) (n : Nat) :
    Decodes (Outline.natural expected) (.nat n) n := by
  intro o h
  obtain ⟨p, rfl⟩ := Outline.spells h
  rw [Outline.natural, if_pos (Int.natCast_nonneg n), Int.toNat_natCast]

theorem decodes_float (x : Float) : Decodes Outline.float (.float x) x := by
  intro o h
  obtain ⟨p, rfl⟩ := Outline.spells h
  rfl

theorem decodes_bool (b : Bool) : Decodes Outline.bool? (.bool b) b := by
  intro o h
  obtain ⟨p, rfl⟩ := Outline.spells h
  rfl

theorem decodes_duration {d : Nat} (hd : d ≤ Duration.longest) :
    Decodes Outline.duration (.duration d) d := by
  intro o h
  obtain ⟨p, rfl⟩ := Outline.spells h
  rw [Outline.duration, DurationText.read_write hd]

theorem Decodes.optional {α : Type} {decode : Outline → Except ReadError α} {v : Value} {a : α}
    (h : Decodes decode v a) (hv : v ≠ .null) : Decodes (Outline.optional decode) v (some a) := by
  intro o ho
  rw [Outline.optional]
  · rw [h o ho]
    rfl
  · rintro p rfl
    exact hv (Except.ok.inj ho).symm

/-! ### Records -/

/-- Fields that are read from their values in turn and make `t` of the record `s`. -/
inductive Fills {σ : Type} : List (FieldReader σ) → List (String × Value) → σ → σ → Prop
  | nil (s : σ) : Fills [] [] s s
  | cons {field : FieldReader σ} {fields : List (FieldReader σ)} {v : Value}
      {values : List (String × Value)} {s s₁ t : σ}
      (h : ∀ o : Outline, o.value? = .ok v → field.read o s = .ok s₁)
      (hrest : Fills fields values s₁ t) : Fills (field :: fields) ((field.name, v) :: values) s t

theorem Fills.of {σ α : Type} {name : String} {decode : Outline → Except ReadError α}
    {put : α → σ → σ} {fields : List (FieldReader σ)} {v : Value} {a : α}
    {values : List (String × Value)} {s t : σ} (h : Decodes decode v a)
    (hrest : Fills fields values (put a s) t) :
    Fills (.of name decode put :: fields) ((name, v) :: values) s t := by
  refine .cons (fun o ho => ?_) hrest
  simp only [FieldReader.of, h o ho]
  rfl

theorem find?_name {σ : Type} {fields : List (FieldReader σ)}
    (hnodup : (fields.map FieldReader.name).Nodup) {field : FieldReader σ} (h : field ∈ fields) :
    fields.find? (fun f => f.name = field.name) = some field := by
  induction fields with
  | nil => contradiction
  | cons f fields ih =>
    rw [List.map_cons, List.nodup_cons] at hnodup
    obtain rfl | hmem := List.mem_cons.1 h
    · exact List.find?_cons_of_pos (decide_eq_true rfl)
    · have hne : f.name ≠ field.name := fun hname =>
        hnodup.1 (hname ▸ List.mem_map_of_mem hmem)
      rw [List.find?_cons_of_neg (by simpa using hne)]
      exact ih hnodup.2 hmem

theorem Fills.readNamed {σ : Type} {all fields : List (FieldReader σ)}
    {values : List (String × Value)} {s t : σ} (h : Fills fields values s t)
    (hfind : ∀ f ∈ fields, all.find? (fun g => g.name = f.name) = some f)
    (hnodup : (fields.map FieldReader.name).Nodup) {seen : List String}
    (hseen : ∀ f ∈ fields, f.name ∉ seen) {outlines : List (FieldName × Outline)}
    (hvalues : List.Forall₂ (fun f v => f.1.text = .ok v.1 ∧ f.2.value? = .ok v.2)
      outlines values) : Section.readNamed all seen s outlines = .ok t := by
  induction h generalizing seen outlines with
  | nil s =>
    cases hvalues
    rfl
  | @cons field fields v values s s₁ t hfield hrest ih =>
    obtain _ | @⟨⟨⟨text, behind⟩, o⟩, _, outlines, _, ⟨hname, ho⟩, hmore⟩ := hvalues
    obtain rfl : text = .ok field.name := hname
    rw [List.map_cons, List.nodup_cons] at hnodup
    simp only [Section.readNamed, hfind field List.mem_cons_self,
      if_neg (hseen field List.mem_cons_self), hfield o ho]
    refine ih (fun f hf => hfind f (List.mem_cons_of_mem field hf)) hnodup.2 (fun f hf => ?_) hmore
    intro hname
    obtain hsame | hname := List.mem_cons.1 hname
    · exact hnodup.1 (hsame ▸ List.mem_map_of_mem hf)
    · exact hseen f (List.mem_cons_of_mem field hf) hname

/-- A record is read as it was written when all its fields are, in order. -/
theorem Section.decodes {σ : Type} {record : Section σ} {start t : σ}
    {values : List (String × Value)} (hnodup : (record.fields.map FieldReader.name).Nodup)
    (h : Fills record.fields values start t) : Decodes (record.read start) (.object values) t := by
  intro o ho
  obtain ⟨fields, p, rfl, hfields⟩ := Outline.spells ho
  have hread : readNamed record.fields [] start fields = .ok t :=
    h.readNamed (fun f hf => find?_name hnodup hf) hnodup (fun f _ => List.not_mem_nil)
      (forall₂_of_fieldValues? hfields)
  rw [Section.read, hread]

/-! ### Texts -/

namespace Decodes

variable {α : Type} {decode : Outline → Except ReadError α} {v : Value} {a : α}

theorem readText (h : Decodes decode v a) {text : String} (htext : Reads text.toList v []) :
    readText decode text = .ok a := by
  obtain ⟨r, hrest, hr⟩ := Option.map_eq_some_iff.1 htext.left
  simp only [Json.readText, h _ htext.value, hrest, hr]
  rfl

theorem compact (h : Decodes decode v a) (hv : v.Readable) :
    Json.readText decode v.compact = .ok a := by
  have htext := reads_chars v hv [] fun c hc => by contradiction
  rw [List.append_nil] at htext
  refine h.readText ?_
  rw [Value.compact, String.toList_ofList]
  exact htext

theorem indented (h : Decodes decode v a) (hv : v.Readable) :
    Json.readText decode v.indented = .ok a := by
  have htext := reads_lines v 0 hv [] fun c hc => by contradiction
  rw [List.append_nil] at htext
  refine h.readText ?_
  rw [Value.indented, String.toList_ofList]
  exact htext

end Decodes

end TieredCache.Json
