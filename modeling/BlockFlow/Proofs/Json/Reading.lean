import BlockFlow.Json.Decoder
import BlockFlow.Proofs.Json.Writing

/-!
# Reading compact texts

`Decoder.Reads` says that a reader takes a value off a text, whatever stands behind it. What reads
the items of a list or the members of an object reads their list or object (`reads_list`,
`reads_object`), and a record is read from its fields one after the other (`Record.Fills`,
`Record.Fills.reads`). So a value is read back from its compact text (`reads_value`), if its numbers
are integers of 64 bits, it does not nest too deep, and no object begins with the name that
announces an embedded text.

## Key results

- `reads_value`: values are read back from their compact texts
- `Record.Fills.reads`: records are read back from the texts of their fields
-/

namespace BlockFlow

namespace Decoder

open Json

/-- A reader takes this value off this text, whatever stands behind it, if only a number ends
there. -/
structure Reads {α : Type} (f : List Char → Except JsonError (α × List Char)) (t : List Char)
    (a : α) : Prop where
  front : Fronted t
  read : ∀ rest, Stops rest → f (t ++ rest) = .ok (a, rest)

/-- What is read may be turned into something else. -/
theorem Reads.map {α β : Type} {f : List Char → Except JsonError (α × List Char)}
    {t : List Char} {a : α} (h : Reads f t a) (g : α → β) :
    Reads (fun cs => do let (x, rest) ← f cs; return (g x, rest)) t (g a) := by
  refine ⟨h.front, fun rest hrest => ?_⟩
  simp [h.read rest hrest]

/-- What is read may be judged. -/
theorem Reads.refine {α β : Type} {decoder : Decoder α} {depth : Nat} {t : List Char} {a : α}
    (h : Reads (decoder depth) t a) {judge : α → Except JsonError β} {b : β}
    (hjudge : judge a = .ok b) : Reads (refine decoder judge depth) t b := by
  refine ⟨h.front, fun rest hrest => ?_⟩
  simp [Decoder.refine, h.read rest hrest, hjudge]

/-! ## What stands between texts -/

/-- No number goes on behind an item or a member, whatever follows to the closing bracket. -/
theorem stops_joined (ts : List (List Char)) {close : Char} (hclose : close = ']' ∨ close = '}')
    (rest : List Char) : Stops (joined false ts ++ close :: rest) := by
  cases ts with
  | nil => obtain rfl | rfl := hclose <;> exact stops_cons.2 (by decide)
  | cons t ts => exact stops_cons.2 (by decide)

theorem length_le_joined (ts : List (List Char)) (first : Bool) (h : ∀ t ∈ ts, t ≠ []) :
    ts.length ≤ (joined first ts).length := by
  induction ts generalizing first with
  | nil => simp
  | cons t ts ih =>
    have h := List.forall_mem_cons.1 h
    have ht : 0 < t.length := List.length_pos_iff.2 h.1
    have htail := ih false h.2
    cases first <;> simp only [joined, List.length_append, List.length_cons] <;> omega

theorem nextItem_joined {t : List Char} (h : Fronted t) (first : Bool) (ts : List (List Char))
    (cs : List Char) :
    nextItem first (joined first (t :: ts) ++ cs) = .ok (some (t ++ (joined false ts ++ cs))) := by
  obtain ⟨c, r, rfl, hblank, hclose⟩ := h
  have hcomma : isBlank ',' = false := rfl
  cases first <;> simp [joined, nextItem, skipBlanks_cons, hblank, hclose, hcomma]

/-! ## Lists -/

section Items

variable {α : Type} {item : List Char → Except JsonError (α × List Char)}
  {text : α → List Char}

/-- The items of a list are read from their texts. -/
theorem items_joined {xs : List α} (h : ∀ x ∈ xs, Reads item (text x) x) {fuel : Nat}
    (hfuel : xs.length < fuel) (acc : List α) (rest : List Char) :
    items item fuel acc (joined acc.isEmpty (xs.map text) ++ ']' :: rest) =
      .ok (acc.reverse ++ xs, rest) := by
  induction xs generalizing fuel acc with
  | nil =>
    obtain ⟨fuel, rfl⟩ : ∃ n, fuel = n + 1 := ⟨fuel - 1, by simp at hfuel; omega⟩
    simp [items, nextItem, closeList, skipBlanks_cons, isBlank]
  | cons x xs ih =>
    simp only [List.length_cons] at hfuel
    obtain ⟨fuel, rfl⟩ : ∃ n, fuel = n + 1 := ⟨fuel - 1, by omega⟩
    have h := List.forall_mem_cons.1 h
    have hnext := nextItem_joined h.1.front acc.isEmpty (xs.map text) (']' :: rest)
    -- An item ends where a comma or the bracket stands.
    have hread := h.1.read _ (stops_joined (xs.map text) (.inl rfl) rest)
    have htail := ih h.2 (by omega : xs.length < fuel) (x :: acc)
    simp only [List.isEmpty_cons] at htail
    simp [items, hnext, hread, htail]

theorem length_lt_items {xs : List α} (h : ∀ x ∈ xs, Reads item (text x) x) (rest : List Char) :
    xs.length < (joined true (xs.map text) ++ ']' :: rest).length + 1 := by
  have hle := length_le_joined (xs.map text) true ?_
  · simp only [List.length_map, List.length_append] at hle ⊢
    omega
  · intro t ht
    obtain ⟨x, hx, rfl⟩ := List.mem_map.1 ht
    obtain ⟨c, cs, hcs, -⟩ := (h x hx).front
    simp [hcs]

theorem reads_list (text : α → List Char) {item : Decoder α} {depth : Nat} {xs : List α}
    (h : ∀ x ∈ xs, Reads (item depth) (text x) x) :
    Reads (list item (depth + 1)) (arrayChars (xs.map text)) xs := by
  refine ⟨fronted_arrayChars _, fun rest _ => ?_⟩
  have hread := items_joined h (length_lt_items h rest) [] rest
  simp only [arrayChars, separated_eq, List.cons_append, List.append_assoc, List.nil_append]
  simpa [list, skipBlanks_cons, isBlank] using hread

end Items

/-! ## Objects -/

theorem colon_cons (cs : List Char) : colon (':' :: cs) = .ok cs := by
  simp [colon, skipBlanks_cons, isBlank]

section Members

variable {α : Type} {value : List Char → Except JsonError (α × List Char)}
  {text : α → List Char}

/-- The text of a member. -/
abbrev memberText (text : α → List Char) (e : String × α) : List Char :=
  quoteChars e.1 ++ ':' :: text e.2

theorem nextName_joined (text : α → List Char) (e : String × α) (first : Bool)
    (ts : List (List Char)) (cs : List Char) :
    nextName first (joined first (memberText text e :: ts) ++ cs) =
      .ok (some (e.1.toList.flatMap escape ++
        '"' :: ':' :: (text e.2 ++ (joined false ts ++ cs)))) := by
  cases first <;> simp [joined, memberText, nextName, quoteChars, skipBlanks_cons, isBlank]

/-- The members of an object are read from their texts. -/
theorem members_joined {es : List (String × α)} (h : ∀ e ∈ es, Reads value (text e.2) e.2)
    {fuel : Nat} (hfuel : es.length < fuel) (acc : List (String × α)) (rest : List Char) :
    members value fuel acc (joined acc.isEmpty (es.map (memberText text)) ++ '}' :: rest) =
      .ok (acc.reverse ++ es, rest) := by
  induction es generalizing fuel acc with
  | nil =>
    obtain ⟨fuel, rfl⟩ : ∃ n, fuel = n + 1 := ⟨fuel - 1, by simp at hfuel; omega⟩
    simp [members, nextName, closeObject, skipBlanks_cons, isBlank]
  | cons e es ih =>
    simp only [List.length_cons] at hfuel
    obtain ⟨fuel, rfl⟩ : ∃ n, fuel = n + 1 := ⟨fuel - 1, by omega⟩
    have h := List.forall_mem_cons.1 h
    have hnext := nextName_joined text e acc.isEmpty (es.map (memberText text))
      ('}' :: rest)
    have hread := h.1.read _ (stops_joined (es.map (memberText text)) (.inr rfl) rest)
    have htail := ih h.2 (by omega : es.length < fuel) (e :: acc)
    simp only [List.isEmpty_cons] at htail
    simp [members, hnext, string_escape, colon_cons, hread, htail]

theorem objectChars_map (es : List (String × α)) :
    objectChars (es.map fun e => (e.1, text e.2)) =
      '{' :: (joined true (es.map (memberText text)) ++ ['}']) := by
  rw [objectChars, separated_eq, List.map_map]
  rfl

theorem length_lt_members (text : α → List Char) (es : List (String × α)) (rest : List Char) :
    es.length < (joined true (es.map (memberText text)) ++ '}' :: rest).length + 1 := by
  have hle := length_le_joined (es.map (memberText text)) true ?_
  · simp only [List.length_map, List.length_append] at hle ⊢
    omega
  · intro t ht
    obtain ⟨e, -, rfl⟩ := List.mem_map.1 ht
    simp [memberText, quoteChars]

theorem reads_object (text : α → List Char) {value : Decoder α} {depth : Nat}
    {es : List (String × α)} (h : ∀ e ∈ es, Reads (value depth) (text e.2) e.2) :
    Reads (object value (depth + 1)) (objectChars (es.map fun e => (e.1, text e.2))) es := by
  refine ⟨fronted_objectChars _, fun rest _ => ?_⟩
  have hread := members_joined h (length_lt_members text es rest) [] rest
  simp only [objectChars_map, List.cons_append, List.append_assoc, List.nil_append]
  simpa [object, skipBlanks_cons, isBlank] using hread

end Members

/-! ## Records -/

section Records

variable {σ α : Type} {r : Record σ α} {depth : Nat}

/-- Fields with their texts, read one after the other, fill a partial record. -/
inductive Record.Fills (r : Record σ α) (depth : Nat) : σ → List (String × List Char) → σ → Prop
  | done {s : σ} : r.Fills depth s [] s
  | field {s s' s'' : σ} {name : String} {t : List Char} {ms : List (String × List Char)}
      {f : Field σ} (hf : r.fields.find? (fun f => f.name = name) = some f)
      (hset : f.isSet s = false) (ht : Reads (f.read s depth) t s')
      (h : r.Fills depth s' ms s'') : r.Fills depth s ((name, t) :: ms) s''

theorem Record.Fills.append {s s' s'' : σ} {ms ms' : List (String × List Char)}
    (h : r.Fills depth s ms s') (h' : r.Fills depth s' ms' s'') :
    r.Fills depth s (ms ++ ms') s'' := by
  induction h with
  | done => exact h'
  | field hf hset ht _ ih => exact .field hf hset ht (ih h')

theorem Record.Fills.members_joined {s s' : σ} {ms : List (String × List Char)}
    (h : r.Fills depth s ms s') {fuel : Nat} (hfuel : ms.length < fuel) (first : Bool)
    (rest : List Char) :
    r.members depth fuel first s
      (joined first (ms.map (memberText fun t => t)) ++ '}' :: rest) = .ok (s', rest) := by
  induction h generalizing fuel first with
  | done =>
    obtain ⟨fuel, rfl⟩ : ∃ n, fuel = n + 1 := ⟨fuel - 1, by simp at hfuel; omega⟩
    simp [Record.members, nextName, closeObject, skipBlanks_cons, isBlank]
  | @field s s' s'' name t ms f hf hset ht h ih =>
    simp only [List.length_cons] at hfuel
    obtain ⟨fuel, rfl⟩ : ∃ n, fuel = n + 1 := ⟨fuel - 1, by omega⟩
    have hnext := nextName_joined (fun t => t) (name, t) first
      (ms.map (memberText fun t => t)) ('}' :: rest)
    have hread := ht.read _ (stops_joined (ms.map (memberText fun t => t)) (.inr rfl) rest)
    have htail := ih (by omega : ms.length < fuel) false
    simp [Record.members, Record.member, hnext, string_escape, colon_cons, hf, hset, hread, htail]

theorem objectChars_append (ms : List (String × List Char)) (rest : List Char) :
    objectChars ms ++ rest =
      '{' :: (joined true (ms.map (memberText fun t => t)) ++ '}' :: rest) := by
  simp [objectChars, separated_eq]

/-- A record is read back from the texts of its fields. -/
theorem Record.Fills.reads {s : σ} {a : α} {ms : List (String × List Char)}
    (h : r.Fills depth r.start ms s) (hfinish : r.finish s = .ok a) :
    Reads (r.decoder (depth + 1)) (objectChars ms) a := by
  refine ⟨fronted_objectChars _, fun rest _ => ?_⟩
  have hmembers := h.members_joined (length_lt_members (fun t => t) ms rest) true rest
  simp only [List.length_append, List.length_cons] at hmembers
  rw [objectChars_append]
  simp [Record.decoder, skipBlanks_cons, isBlank, hmembers, hfinish]

end Records

/-! ## Values -/

section Values

variable {embedded : Option (String → Except JsonError Json)} {depth : Nat} {cs : List Char}

/-- A number is read again with the character that announces it. -/
theorem valueWith_number {c : Char} (hc : c = '-' ∨ isDigit c = true) :
    valueWith embedded depth (c :: cs) =
      do
        let (n, rest) ← number (c :: cs)
        return (.num n, rest) := by
  obtain rfl | hc := hc
  · simp [valueWith, skipBlanks_cons, isBlank]
  · have hne : ∀ d, isDigit d = false → c ≠ d := fun d => ne_of_isDigit hc
    simp [valueWith, skipBlanks_cons, isBlank_of_isDigit hc, hc, hne 'n' rfl, hne 't' rfl,
      hne 'f' rfl]

theorem valueWith_string : valueWith embedded depth ('"' :: cs) =
    do
      let (s, rest) ← Json.string cs
      return (.str s, rest) := by
  simp [valueWith, skipBlanks_cons, isBlank, isDigit]

theorem valueWith_list : valueWith embedded (depth + 1) ('[' :: cs) =
    do
      let (vs, rest) ← items (valueWith embedded depth) (cs.length + 1) [] cs
      return (.arr vs, rest) := by
  simp [valueWith, skipBlanks_cons, isBlank, isDigit]

/-- An object is taken as it is written, if it announces no embedded text that is looked for. -/
theorem valueWith_object (hplain : embedded.isSome = true → embedded? cs = none) :
    valueWith embedded (depth + 1) ('{' :: cs) =
      do
        let (ms, rest) ← members (valueWith embedded depth) (cs.length + 1) [] cs
        return (.obj ms, rest) := by
  cases embedded with
  | none => simp [valueWith, skipBlanks_cons, isBlank, isDigit]
  | some value => simp [valueWith, skipBlanks_cons, isBlank, isDigit, hplain rfl]

theorem valueWith_embedded {value : String → Except JsonError Json} {text' : List Char}
    (h : embedded? cs = some text') : valueWith (some value) (depth + 1) ('{' :: cs) =
      do
        let (s, rest) ← text "raw value" depth (← colon text')
        let v ← value s
        return (v, ← closeObject rest) := by
  simp [valueWith, skipBlanks_cons, isBlank, isDigit, h]

/-- No container is entered beyond the limit. -/
theorem valueWith_zero {c : Char} (hc : c = '[' ∨ c = '{') :
    valueWith embedded 0 (c :: cs) = .error .recursionLimit := by
  obtain rfl | rfl := hc <;> simp [valueWith, skipBlanks_cons, isBlank, isDigit]

end Values

theorem chars_arr_append (items : List Json) (rest : List Char) :
    (Json.arr items).chars ++ rest = '[' :: (joined true (items.map chars) ++ ']' :: rest) := by
  simp [chars, itemChars_eq, arrayChars, separated_eq]

theorem chars_obj_append (members : List (String × Json)) (rest : List Char) :
    (Json.obj members).chars ++ rest =
      '{' :: (joined true (members.map (memberText chars)) ++ '}' :: rest) := by
  rw [chars, memberChars_eq, objectChars_map]
  simp

/-- An object whose first name announces an embedded text. -/
def StartsReserved (members : List (String × Json)) : Prop :=
  ∃ v rest, members = (embeddedName, v) :: rest

/-- A value in which no object announces an embedded text. -/
def Unreserved (v : Json) : Prop := ∀ members, IsPart (.obj members) v → ¬StartsReserved members

theorem unreserved_of_nesting_eq_zero {v : Json} (h : v.nesting = 0) : Unreserved v := by
  intro members hpart
  cases v with
  | arr items => cases h
  | obj members => cases h
  | null => cases hpart
  | bool b => cases hpart
  | num n => cases hpart
  | str s => cases hpart

theorem embedded?_joined {members : List (String × Json)} (h : ¬StartsReserved members)
    (rest : List Char) :
    embedded? (joined true (members.map (memberText chars)) ++ '}' :: rest) = none := by
  cases members with
  | nil => simp [embedded?, nextName, skipBlanks_cons, isBlank]
  | cons m ms =>
    have hname : m.1 ≠ embeddedName := fun hname => h ⟨m.2, ms, by rw [← hname]⟩
    simp [embedded?, nextName_joined, string_escape, hname]

/-- A value is read back from its compact text. -/
theorem reads_value (embedded : Option (String → Except JsonError Json)) (v : Json) :
    ∀ {depth : Nat}, v.Integral → v.nesting ≤ depth → (embedded.isSome = true → Unreserved v) →
      Reads (valueWith embedded depth) v.chars v := by
  -- By induction on the value: its parts are less deep and hold the same kinds of numbers.
  induction v using Json.induction with
  | null =>
    intro depth _ _ _
    refine ⟨fronted_chars _, fun rest _ => ?_⟩
    simp [chars, valueWith, skipBlanks_cons, isBlank, literal]
  | bool b =>
    intro depth _ _ _
    refine ⟨fronted_chars _, fun rest _ => ?_⟩
    cases b <;>
      simp [chars, valueWith, skipBlanks_cons, isBlank, literal]
  | num n =>
    intro depth hnum _ _
    refine ⟨fronted_chars _, fun rest hrest => ?_⟩
    obtain ⟨i, rfl, hi⟩ := hnum n .whole
    have hread := number_int hi hrest
    obtain ⟨c, cs, hcs, hc⟩ := (numberText_int i).head
    simp only [chars, Number.text] at hread ⊢
    rw [hcs, List.cons_append] at hread ⊢
    rw [valueWith_number hc, hread]
    rfl
  | str s =>
    intro depth _ _ _
    refine ⟨fronted_chars _, fun rest _ => ?_⟩
    simp [chars, quoteChars, valueWith_string, string_escape]
  | arr items ih =>
    intro depth hnum hdepth hreserved
    rw [nesting] at hdepth
    obtain ⟨depth, rfl⟩ : ∃ d, depth = d + 1 := ⟨depth - 1, by omega⟩
    have hitems : ∀ v ∈ items, Reads (valueWith embedded depth) v.chars v := by
      intro v hv
      have hle := nesting_le_itemNesting hv
      exact ih v hv (fun n hn => hnum n (.item hv hn)) (by omega)
        fun he members hm => hreserved he members (.item hv hm)
    refine ⟨fronted_chars _, fun rest _ => ?_⟩
    have hread := items_joined hitems (length_lt_items hitems rest) [] rest
    simp only [List.length_append, List.length_cons, List.isEmpty_nil] at hread
    rw [chars_arr_append, valueWith_list]
    simp [hread]
  | obj members ih =>
    intro depth hnum hdepth hreserved
    rw [nesting] at hdepth
    obtain ⟨depth, rfl⟩ : ∃ d, depth = d + 1 := ⟨depth - 1, by omega⟩
    have hmembers : ∀ m ∈ members, Reads (valueWith embedded depth) m.2.chars m.2 := by
      intro m hm
      have hle := nesting_le_memberNesting hm
      exact ih m hm (fun n hn => hnum n (.member hm hn)) (by omega)
        fun he members h => hreserved he members (.member hm h)
    refine ⟨fronted_chars _, fun rest _ => ?_⟩
    have hread := members_joined hmembers (length_lt_members chars members rest) [] rest
    simp only [List.length_append, List.length_cons, List.isEmpty_nil] at hread
    rw [chars_obj_append,
      valueWith_object fun he => embedded?_joined (hreserved he members .whole) rest]
    simp [hread]

/-- A text that is read to its end holds what is read. -/
theorem Reads.run {α : Type} {decoder : Decoder α} {t : List Char} {a : α}
    (h : Reads (decoder maxDepth) t a) : run decoder (String.ofList t) = .ok a := by
  have hread := h.read [] stops_nil
  rw [List.append_nil] at hread
  simp [Decoder.run, hread, skipBlanks]

end Decoder

end BlockFlow
