import TieredCache.Json.Reading
import TieredCache.Proofs.JsonTokens

/-!
# JSON values read back from their text

Reading a value takes its tokens one after another, with gaps of any size between them. One rule for
each form of value says what is read where that form is written; by induction on the value both its
compact and its indented text are read as the value they were made of.
-/

namespace TieredCache.Json

/-! ### Gaps -/

section

variable {s r : List Char} {c : Char}

theorem length_le_of_skipGap (h : skipGap s = c :: r) : (c :: r).length ≤ s.length :=
  length_lt_of_skipGap h

theorem skipGap_cons (hc : isGap c = false) (s : List Char) : skipGap (c :: s) = c :: s :=
  List.dropWhile_cons_of_neg (by simp [hc])

theorem skipGap_append {gap : List Char} (hgap : ∀ c ∈ gap, isGap c = true) (s : List Char) :
    skipGap (gap ++ s) = skipGap s :=
  List.dropWhile_append_of_pos hgap

theorem not_isGap_of_skipGap (h : skipGap s = c :: r) : isGap c = false := by
  have hhead := List.head?_dropWhile_not isGap s
  rw [skipGap] at h
  rw [h] at hhead
  simpa using hhead

end

theorem Front.widen_widen {α : Type} {s t u : List Char} (h : u.length ≤ t.length)
    (h' : t.length ≤ s.length) (f : Front u α) :
    (f.widen h).widen h' = f.widen (Nat.le_trans h h') := by
  rw [widen, widen, widen, Option.map_map]
  rfl

theorem readValue_of_skipGap {s r : List Char} {c : Char} (h : skipGap s = c :: r) :
    readValue s = (readValue (c :: r)).widen (length_le_of_skipGap h) := by
  have hc : skipGap (c :: r) = c :: r := skipGap_cons (not_isGap_of_skipGap h) r
  conv => rhs; rw [readValue]
  split
  · rename_i h'
    rw [hc] at h'
    contradiction
  · rename_i d t h'
    obtain ⟨rfl, rfl⟩ := List.cons.inj (h'.symm.trans hc)
    rw [readValue]
    split
    · rename_i h''
      rw [h] at h''
      contradiction
    · rename_i d' t' h''
      obtain ⟨rfl, rfl⟩ := List.cons.inj (h''.symm.trans h)
      -- In each form of value the two sides differ only in the proofs that something is left.
      dsimp only
      split_ifs
      · exact (Front.widen_widen _ _ _).symm
      · exact (Front.widen_widen _ _ _).symm
      · exact (Front.widen_widen _ _ _).symm
      · exact (Front.widen_widen _ _ _).symm
      · split
        · rfl
        · rfl
      · split
        · rfl
        · rfl
        · rw [Front.widen, Option.map_map]
          rfl
      · split
        · rfl
        · rfl
        · rw [Front.widen, Option.map_map]
          rfl
      · rfl

/-! ### Single values -/

/-- The value at the front of a text, and what is left behind it. -/
structure Reads (s : List Char) (v : Value) (rest : List Char) : Prop where
  value : (readValue s).head.value? = .ok v
  left : (readValue s).rest.map Subtype.val = some rest

section

variable {s t rest : List Char} {v : Value}

theorem reads_widen {hlength : t.length ≤ s.length}
    (hs : readValue s = (readValue t).widen hlength) : Reads s v rest ↔ Reads t v rest := by
  have hleft : (readValue s).rest.map Subtype.val = (readValue t).rest.map Subtype.val := by
    rw [hs, Front.widen, Option.map_map]
    rfl
  have hhead : (readValue s).head = (readValue t).head := by
    rw [hs]
    rfl
  constructor
  · exact fun h => ⟨hhead ▸ h.value, hleft ▸ h.left⟩
  · exact fun h => ⟨hhead ▸ h.value, hleft ▸ h.left⟩

/-- A text on which a value is read starts, behind its gap, with something other than the end of an
array. -/
theorem Reads.start (h : Reads s v rest) : ∃ c r, skipGap s = c :: r ∧ c ≠ ']' := by
  cases hs : skipGap s with
  | nil =>
    have hvalue := h.value
    rw [readValue] at hvalue
    split at hvalue
    · contradiction
    · rename_i h'
      rw [hs] at h'
      contradiction
  | cons c r =>
    refine ⟨c, r, rfl, ?_⟩
    rintro rfl
    have hvalue := h.value
    rw [readValue_of_skipGap hs, readValue] at hvalue
    contradiction

/-- Nothing changes when there is a larger gap in front. -/
theorem Reads.gap {gap : List Char} (hgap : ∀ c ∈ gap, isGap c = true) (h : Reads s v rest) :
    Reads (gap ++ s) v rest := by
  obtain ⟨c, r, hs, -⟩ := h.start
  have hgaps : skipGap (gap ++ s) = c :: r := by rw [skipGap_append hgap, hs]
  exact (reads_widen (readValue_of_skipGap hgaps)).2
    ((reads_widen (readValue_of_skipGap hs)).1 h)

theorem Reads.blank (h : Reads s v rest) : Reads (' ' :: s) v rest :=
  Reads.gap (List.forall_mem_singleton.2 rfl : ∀ c ∈ [' '], isGap c = true) h

end

section

variable (rest : List Char)

theorem reads_null : Reads ("null".toList ++ rest) .null rest := by
  refine ⟨?_, ?_⟩ <;> (rw [readValue]; rfl)

theorem reads_bool (b : Bool) :
    Reads ((if b then "true" else "false").toList ++ rest) (.bool b) rest := by
  cases b with
  | true => refine ⟨?_, ?_⟩ <;> (rw [readValue]; rfl)
  | false => refine ⟨?_, ?_⟩ <;> (rw [readValue]; rfl)

theorem readValue_quote (t : List Char) : readValue ('"' :: t) =
    match StringLiteral.scan t with
    | .ok (text, r) => ⟨.string text ⟨'"' :: t, r.1⟩, some (Shorter.cons r)⟩
    | .error b => ⟨.broken b ('"' :: t), none⟩ := by
  rw [readValue]
  rfl

theorem stringText_append (s : String) :
    stringText s ++ rest = '"' :: (s.toList.flatMap escapedChar ++ '"' :: rest) := by
  rw [stringText, List.cons_append, List.cons_append, List.append_assoc, List.singleton_append]

theorem skipGap_stringText (s : String) :
    skipGap (stringText s ++ rest) = stringText s ++ rest := by
  rw [stringText_append]
  exact skipGap_cons rfl _

theorem reads_string (s : String) : Reads (stringText s ++ rest) (.string s) rest := by
  obtain ⟨r, hscan, hr⟩ := StringLiteral.scan_escaped s rest
  rw [stringText_append]
  refine ⟨?_, ?_⟩
  · rw [readValue_quote, hscan]
    rfl
  · rw [readValue_quote, hscan]
    exact congrArg some hr

theorem isGap_eq_false_of_isDigit {c : Char} (hc : c.isDigit = true) : isGap c = false := by
  simp only [isGap, Bool.or_eq_false_iff, decide_eq_false_iff_not]
  refine ⟨⟨⟨?_, ?_⟩, ?_⟩, ?_⟩
  all_goals
    rintro rfl
    contradiction

theorem readValue_numeral {c : Char} (hc : c = '-' ∨ c.isDigit = true) (t : List Char) :
    readValue (c :: t) = (readNumeral (c :: t)).widen (Nat.le_refl _) := by
  have hgap : isGap c = false := by
    obtain rfl | hdigit := hc
    · rfl
    · exact isGap_eq_false_of_isDigit hdigit
  have hn : c ≠ 'n' := by rintro rfl; revert hc; decide
  have ht : c ≠ 't' := by rintro rfl; revert hc; decide
  have hf : c ≠ 'f' := by rintro rfl; revert hc; decide
  rw [readValue]
  split
  · rename_i h
    rw [skipGap_cons hgap] at h
    contradiction
  · rename_i d u h
    obtain ⟨rfl, rfl⟩ := List.cons.inj (h.symm.trans (skipGap_cons hgap t))
    rw [if_neg hn, if_neg ht, if_neg hf, if_pos hc]

theorem reads_number {n : Number} (h : n.ReadsBack) {rest : List Char} (hrest : Delimits rest) :
    Reads (n.text.toList ++ rest) (.number n) rest := by
  obtain ⟨c, t, htext, hc⟩ := h.text_cons
  obtain ⟨m, ⟨r, hscan, hr⟩, hnumber⟩ := h.scan_text hrest
  have hread : readValue (n.text.toList ++ rest) =
      (readNumeral (n.text.toList ++ rest)).widen (Nat.le_refl _) := by
    rw [htext]
    exact readValue_numeral hc (t ++ rest)
  refine ⟨?_, ?_⟩
  · rw [hread, readNumeral, hscan]
    simp only [Front.widen, Numeral.number, hnumber]
    rfl
  · rw [hread, readNumeral, hscan]
    exact congrArg some hr

end

/-! ### Several values -/

/-- The items of an array up to its end, at least one, and what is left behind it. -/
structure ReadsItems (s : List Char) (items : List Value) (rest : List Char) : Prop where
  start : ∃ c r, skipGap s = c :: r ∧ c ≠ ']'
  values : itemValues? (readItems s).head.1 = .ok items
  closed : (readItems s).head.2 = none
  left : (readItems s).rest.map Subtype.val = some rest

/-- The fields of an object up to its end, at least one, and what is left behind it. -/
structure ReadsFields (s : List Char) (fields : List (String × Value)) (rest : List Char) :
    Prop where
  start : ∃ c r, skipGap s = c :: r ∧ c ≠ '\x7d'
  values : fieldValues? (readFields s).head.1 = .ok fields
  closed : (readFields s).head.2 = none
  left : (readFields s).rest.map Subtype.val = some rest

theorem scanOpening_filled {e : Enclosure} {s : List Char}
    (h : ∃ c r, skipGap s = c :: r ∧ c ≠ e.closing) : scanOpening e s = .filled := by
  obtain ⟨c, r, hs, hc⟩ := h
  rw [scanOpening]
  split
  · rename_i h'
    rw [hs] at h'
    contradiction
  · rename_i d u h'
    obtain ⟨rfl, rfl⟩ := List.cons.inj (h'.symm.trans hs)
    exact if_neg hc

theorem readValue_bracket (t : List Char) : readValue ('[' :: t) =
    match scanOpening .brackets t with
    | .stop b => ⟨.array [] (some b) ⟨'[' :: t, []⟩, none⟩
    | .empty r => ⟨.array [] none ⟨'[' :: t, r.1⟩, some (Shorter.cons r)⟩
    | .filled =>
      ⟨.array (readItems t).head.1 (readItems t).head.2
          ⟨'[' :: t, (readItems t).rest.elim [] Subtype.val⟩,
        (readItems t).rest.map fun r => Shorter.cons r⟩ := by
  rw [readValue]
  rfl

theorem readValue_brace (t : List Char) : readValue ('\x7b' :: t) =
    match scanOpening .braces t with
    | .stop b => ⟨.object [] (some b) ⟨'\x7b' :: t, []⟩, none⟩
    | .empty r => ⟨.object [] none ⟨'\x7b' :: t, r.1⟩, some (Shorter.cons r)⟩
    | .filled =>
      ⟨.object (readFields t).head.1 (readFields t).head.2
          ⟨'\x7b' :: t, (readFields t).rest.elim [] Subtype.val⟩,
        (readFields t).rest.map fun r => Shorter.cons r⟩ := by
  rw [readValue]
  rfl

section

variable {s rest : List Char}

theorem ReadsItems.reads {items : List Value} (h : ReadsItems s items rest) :
    Reads ('[' :: s) (.array items) rest := by
  have hfilled : scanOpening .brackets s = .filled := scanOpening_filled h.start
  refine ⟨?_, ?_⟩
  · rw [readValue_bracket, hfilled]
    simp only [Outline.value?, h.values, h.closed]
  · rw [readValue_bracket, hfilled]
    exact (Option.map_map ..).trans h.left

theorem ReadsFields.reads {fields : List (String × Value)} (h : ReadsFields s fields rest) :
    Reads ('\x7b' :: s) (.object fields) rest := by
  have hfilled : scanOpening .braces s = .filled := scanOpening_filled h.start
  refine ⟨?_, ?_⟩
  · rw [readValue_brace, hfilled]
    simp only [Outline.value?, h.values, h.closed]
  · rw [readValue_brace, hfilled]
    exact (Option.map_map ..).trans h.left

theorem reads_emptyArray (rest : List Char) : Reads ('[' :: ']' :: rest) (.array []) rest := by
  refine ⟨?_, ?_⟩ <;> (rw [readValue_bracket]; rfl)

theorem reads_emptyObject (rest : List Char) :
    Reads ('\x7b' :: '\x7d' :: rest) (.object []) rest := by
  refine ⟨?_, ?_⟩ <;> (rw [readValue_brace]; rfl)

end

theorem Outline.asItem_eq {o : Outline} {v : Value} (h : o.value? = .ok v) : o.asItem = o := by
  cases o with
  | broken b start => contradiction
  | _ => rfl

theorem scanAfter_comma (e : Enclosure) {s r : List Char} (h : skipGap s = ',' :: r) :
    ∃ u, scanAfter e s = .comma u ∧ u.1 = r := by
  rw [scanAfter]
  split
  · rename_i h'
    rw [h] at h'
    contradiction
  · rename_i c t h'
    obtain ⟨rfl, rfl⟩ := List.cons.inj (h'.symm.trans h)
    exact ⟨_, if_pos rfl, rfl⟩

theorem scanAfter_closing {e : Enclosure} (he : e.closing ≠ ',') {s r : List Char}
    (h : skipGap s = e.closing :: r) : ∃ u, scanAfter e s = .close u ∧ u.1 = r := by
  rw [scanAfter]
  split
  · rename_i h'
    rw [h] at h'
    contradiction
  · rename_i c t h'
    obtain ⟨rfl, rfl⟩ := List.cons.inj (h'.symm.trans h)
    exact ⟨_, (if_neg he).trans (if_pos rfl), rfl⟩

section

variable {s t u rest : List Char} {v : Value} {items : List Value}

theorem ReadsItems.last (h : Reads s v t) (ht : skipGap t = ']' :: rest) :
    ReadsItems s [v] rest := by
  obtain ⟨r, hr, rfl⟩ := Option.map_eq_some_iff.1 h.left
  obtain ⟨r', hafter, rfl⟩ := scanAfter_closing (e := .brackets) (by decide) ht
  have hitem := Outline.asItem_eq h.value
  refine ⟨h.start, ?_, ?_, ?_⟩
  · rw [readItems]
    simp only [hr, hafter, hitem, itemValues?, h.value]
    rfl
  · rw [readItems]
    simp only [hr, hafter]
  · rw [readItems]
    simp only [hr, hafter]
    rfl

theorem ReadsItems.cons (h : Reads s v t) (ht : skipGap t = ',' :: u)
    (hmore : ReadsItems u items rest) : ReadsItems s (v :: items) rest := by
  obtain ⟨r, hr, rfl⟩ := Option.map_eq_some_iff.1 h.left
  obtain ⟨r', hafter, rfl⟩ := scanAfter_comma .brackets ht
  have hitem := Outline.asItem_eq h.value
  refine ⟨h.start, ?_, ?_, ?_⟩
  · rw [readItems]
    simp only [hr, hafter, hitem, itemValues?, h.value, hmore.values]
    rfl
  · rw [readItems]
    simp only [hr, hafter, hmore.closed]
  · rw [readItems]
    simp only [hr, hafter, Option.map_map]
    exact hmore.left

end

theorem scanFieldStart_named {name : String} {s t u : List Char}
    (hs : skipGap s = stringText name ++ t) (ht : skipGap t = ':' :: u) :
    ∃ behind r, scanFieldStart s = .named ⟨.ok name, behind⟩ r ∧ r.1 = u := by
  obtain ⟨r, hscan, hr⟩ := StringLiteral.scan_escaped name t
  rw [stringText_append] at hs
  rw [scanFieldStart]
  split
  · rename_i r' h
    obtain rfl := (List.cons.inj (h.symm.trans hs)).2
    simp only [hscan]
    split
    · rename_i h'
      rw [hr, ht] at h'
      contradiction
    · rename_i c u' h'
      rw [hr] at h'
      obtain ⟨rfl, rfl⟩ := List.cons.inj (h'.symm.trans ht)
      exact ⟨r.1, _, if_pos rfl, rfl⟩
  · rename_i h
    exact absurd hs (h _)

section

variable {s t u w x rest : List Char} {name : String} {v : Value} {fields : List (String × Value)}

theorem start_of_name (hs : skipGap s = stringText name ++ t) :
    ∃ c r, skipGap s = c :: r ∧ c ≠ '\x7d' :=
  ⟨'"', _, hs.trans (stringText_append t name), by decide⟩

theorem ReadsFields.last (hs : skipGap s = stringText name ++ t) (ht : skipGap t = ':' :: u)
    (h : Reads u v w) (hw : skipGap w = '\x7d' :: rest) : ReadsFields s [(name, v)] rest := by
  obtain ⟨behind, q, hstart, rfl⟩ := scanFieldStart_named hs ht
  obtain ⟨r, hr, rfl⟩ := Option.map_eq_some_iff.1 h.left
  obtain ⟨r', hafter, rfl⟩ := scanAfter_closing (e := .braces) (by decide) hw
  refine ⟨start_of_name hs, ?_, ?_, ?_⟩
  · rw [readFields]
    simp only [hstart, hr, hafter, fieldValues?, h.value]
    rfl
  · rw [readFields]
    simp only [hstart, hr, hafter]
  · rw [readFields]
    simp only [hstart, hr, hafter]
    rfl

theorem ReadsFields.cons (hs : skipGap s = stringText name ++ t) (ht : skipGap t = ':' :: u)
    (h : Reads u v w) (hw : skipGap w = ',' :: x) (hmore : ReadsFields x fields rest) :
    ReadsFields s ((name, v) :: fields) rest := by
  obtain ⟨behind, q, hstart, rfl⟩ := scanFieldStart_named hs ht
  obtain ⟨r, hr, rfl⟩ := Option.map_eq_some_iff.1 h.left
  obtain ⟨r', hafter, rfl⟩ := scanAfter_comma .braces hw
  refine ⟨start_of_name hs, ?_, ?_, ?_⟩
  · rw [readFields]
    simp only [hstart, hr, hafter, fieldValues?, h.value, hmore.values]
    rfl
  · rw [readFields]
    simp only [hstart, hr, hafter, hmore.closed]
  · rw [readFields]
    simp only [hstart, hr, hafter, Option.map_map]
    exact hmore.left

end

/-! ### Whole texts -/

mutual

/-- A value whose numbers are all read back. -/
def Value.Readable : Value → Prop
  | .number n => n.ReadsBack
  | .array items => ItemsReadable items
  | .object fields => FieldsReadable fields
  | .null | .bool _ | .string _ => True

def ItemsReadable : List Value → Prop
  | [] => True
  | v :: rest => v.Readable ∧ ItemsReadable rest

def FieldsReadable : List (String × Value) → Prop
  | [] => True
  | (_, v) :: rest => v.Readable ∧ FieldsReadable rest

end

theorem delimits_cons {c : Char} (hc : c ∈ [',', ']', '\x7d', '\n']) (t : List Char) :
    Delimits (c :: t) := by
  intro d hd
  obtain rfl : c = d := Option.some.inj hd
  simp only [List.mem_cons, List.not_mem_nil, or_false] at hc
  obtain rfl | rfl | rfl | rfl := hc
  all_goals decide

mutual

/-- A value is read back from its compact text, whatever delimits it. -/
theorem reads_chars : ∀ v : Value, v.Readable → ∀ rest, Delimits rest →
    Reads (v.chars ++ rest) v rest
  | .null, _, rest, _ => by
    rw [Value.chars]
    exact reads_null rest
  | .bool b, _, rest, _ => by
    rw [Value.chars]
    exact reads_bool rest b
  | .number n, hn, rest, hrest => by
    rw [Value.chars]
    rw [Value.Readable] at hn
    exact reads_number hn hrest
  | .string s, _, rest, _ => by
    rw [Value.chars]
    exact reads_string rest s
  | .array [], _, rest, _ => by
    rw [Value.chars]
    exact reads_emptyArray rest
  | .array (v :: items), h, rest, _ => by
    rw [Value.Readable] at h
    have hitems := readsItems_itemChars (v :: items) (List.cons_ne_nil v items) h rest
    rw [Value.chars, List.cons_append, List.cons_append, List.append_assoc, List.singleton_append]
    exact hitems.reads
  | .object [], _, rest, _ => by
    rw [Value.chars]
    exact reads_emptyObject rest
  | .object (f :: fields), h, rest, _ => by
    rw [Value.Readable] at h
    have hfields := readsFields_fieldChars (f :: fields) (List.cons_ne_nil f fields) h rest
    rw [Value.chars, List.cons_append, List.cons_append, List.append_assoc, List.singleton_append]
    exact hfields.reads

theorem readsItems_itemChars : ∀ items : List Value, items ≠ [] → ItemsReadable items → ∀ rest,
    ReadsItems (Value.itemChars items ++ ']' :: rest) items rest
  | [], h, _, _ => absurd rfl h
  | [v], _, h, rest => by
    rw [Value.itemChars]
    exact .last (reads_chars v h.1 _ (delimits_cons (by decide) rest)) (skipGap_cons rfl rest)
  | v :: w :: items, _, h, rest => by
    have hmore := readsItems_itemChars (w :: items) (List.cons_ne_nil w items) h.2 rest
    rw [Value.itemChars, List.append_assoc]
    exact .cons (reads_chars v h.1 _ (delimits_cons (by decide) _)) (skipGap_cons rfl _) hmore

theorem readsFields_fieldChars : ∀ fields : List (String × Value), fields ≠ [] →
    FieldsReadable fields → ∀ rest,
    ReadsFields (Value.fieldChars fields ++ '\x7d' :: rest) fields rest
  | [], h, _, _ => absurd rfl h
  | [(name, v)], _, h, rest => by
    rw [Value.fieldChars, List.append_assoc]
    exact .last (skipGap_stringText _ name) (skipGap_cons rfl _)
      (reads_chars v h.1 _ (delimits_cons (by decide) rest)) (skipGap_cons rfl rest)
  | (name, v) :: f :: fields, _, h, rest => by
    have hmore := readsFields_fieldChars (f :: fields) (List.cons_ne_nil f fields) h.2 rest
    rw [Value.fieldChars, List.append_assoc, List.append_assoc]
    exact .cons (skipGap_stringText _ name) (skipGap_cons rfl _)
      (reads_chars v h.1 _ (delimits_cons (by decide) _)) (skipGap_cons rfl _) hmore

end

theorem isGap_newLine (depth : Nat) : ∀ c ∈ Value.newLine depth, isGap c = true := by
  intro c hc
  obtain rfl | hc := List.mem_cons.1 hc
  · rfl
  · rw [List.eq_of_mem_replicate hc]
    rfl

theorem skipGap_newLine (depth : Nat) {c : Char} (hc : isGap c = false) (s : List Char) :
    skipGap (Value.newLine depth ++ c :: s) = c :: s := by
  rw [skipGap_append (isGap_newLine depth), skipGap_cons hc]

theorem skipGap_newLine_name (depth : Nat) (name : String) (s : List Char) :
    skipGap (Value.newLine depth ++ (stringText name ++ s)) = stringText name ++ s := by
  rw [skipGap_append (isGap_newLine depth), skipGap_stringText]

theorem delimits_newLine (depth : Nat) (s : List Char) : Delimits (Value.newLine depth ++ s) :=
  delimits_cons (by decide) _

mutual

/-- A value is read back from its indented text, at any depth. -/
theorem reads_lines : ∀ (v : Value) (depth : Nat), v.Readable → ∀ rest, Delimits rest →
    Reads (v.lines depth ++ rest) v rest
  | .null, _, _, rest, _ => by
    rw [Value.lines]
    exact reads_null rest
  | .bool b, _, _, rest, _ => by
    rw [Value.lines]
    exact reads_bool rest b
  | .number n, _, hn, rest, hrest => by
    rw [Value.lines]
    rw [Value.Readable] at hn
    exact reads_number hn hrest
  | .string s, _, _, rest, _ => by
    rw [Value.lines]
    exact reads_string rest s
  | .array [], _, _, rest, _ => by
    rw [Value.lines]
    exact reads_emptyArray rest
  | .array (v :: items), depth, h, rest, _ => by
    rw [Value.Readable] at h
    have hitems := readsItems_itemLines (v :: items) (depth + 1) depth (List.cons_ne_nil v items) h
      rest
    rw [Value.lines, List.cons_append, List.cons_append, List.cons_append, List.append_assoc,
      List.append_assoc, List.singleton_append]
    exact hitems.reads
  | .object [], _, _, rest, _ => by
    rw [Value.lines]
    exact reads_emptyObject rest
  | .object (f :: fields), depth, h, rest, _ => by
    rw [Value.Readable] at h
    have hfields := readsFields_fieldLines (f :: fields) (depth + 1) depth
      (List.cons_ne_nil f fields) h rest
    rw [Value.lines, List.cons_append, List.cons_append, List.cons_append, List.append_assoc,
      List.append_assoc, List.singleton_append]
    exact hfields.reads

theorem readsItems_itemLines : ∀ (items : List Value) (depth outer : Nat), items ≠ [] →
    ItemsReadable items → ∀ rest,
    ReadsItems (Value.itemLines depth items ++ (Value.newLine outer ++ ']' :: rest)) items rest
  | [], _, _, h, _, _ => absurd rfl h
  | [v], depth, outer, _, h, rest => by
    rw [Value.itemLines, List.append_assoc]
    exact .last ((reads_lines v depth h.1 _ (delimits_newLine outer _)).gap (isGap_newLine depth))
      (skipGap_newLine outer rfl rest)
  | v :: w :: items, depth, outer, _, h, rest => by
    have hmore := readsItems_itemLines (w :: items) depth outer (List.cons_ne_nil w items) h.2 rest
    rw [Value.itemLines, List.append_assoc, List.append_assoc]
    exact .cons ((reads_lines v depth h.1 _ (delimits_cons (by decide) _)).gap
      (isGap_newLine depth)) (skipGap_cons rfl _) hmore

theorem readsFields_fieldLines : ∀ (fields : List (String × Value)) (depth outer : Nat),
    fields ≠ [] → FieldsReadable fields → ∀ rest,
    ReadsFields (Value.fieldLines depth fields ++ (Value.newLine outer ++ '\x7d' :: rest)) fields
      rest
  | [], _, _, h, _, _ => absurd rfl h
  | [(name, v)], depth, outer, _, h, rest => by
    have hv := reads_lines v depth h.1 _ (delimits_newLine outer ('\x7d' :: rest))
    rw [Value.fieldLines, List.append_assoc, List.append_assoc, List.cons_append, List.cons_append]
    exact .last (skipGap_newLine_name depth name _) (skipGap_cons rfl _) hv.blank
      (skipGap_newLine outer rfl rest)
  | (name, v) :: f :: fields, depth, outer, _, h, rest => by
    have hmore := readsFields_fieldLines (f :: fields) depth outer (List.cons_ne_nil f fields) h.2
      rest
    have hv : ∀ t, Reads (v.lines depth ++ ',' :: t) v (',' :: t) := fun t =>
      reads_lines v depth h.1 _ (delimits_cons (by decide) t)
    rw [Value.fieldLines, List.append_assoc, List.append_assoc, List.append_assoc,
      List.cons_append, List.cons_append]
    exact .cons (skipGap_newLine_name depth name _) (skipGap_cons rfl _) (hv _).blank
      (skipGap_cons rfl _) hmore

end

end TieredCache.Json
