import BlockFlow.Proofs.Json.Embedding

/-!
# Compact texts that are refused

A value that nests too deep is refused, and so is one in which an object of several members begins
with the name that announces an embedded text: what should follow that one member is the end of the
object. Whatever holds a refused text is refused as well (`items_refused`, `members_refused`,
`Record.Fills.refuses`), so that each value is either read back or refused
(`readable_or_refuses`).

## Key results

- `readable_or_refuses`: a value that is not read back from its compact text is refused
- `Record.Fills.refuses`: a record is refused with one of its fields
-/

namespace BlockFlow.Decoder

open Json

/-- A reader refuses a text, whatever stands behind it. -/
structure Refuses {α : Type} (f : List Char → Except JsonError (α × List Char)) (t : List Char) :
    Prop where
  front : Fronted t
  refuse : ∀ rest, ∃ e, f (t ++ rest) = .error e

theorem Refuses.map {α β : Type} {f : List Char → Except JsonError (α × List Char)}
    {t : List Char} (h : Refuses f t) (g : α → β) :
    Refuses (fun cs => do let (x, rest) ← f cs; return (g x, rest)) t := by
  refine ⟨h.front, fun rest => ?_⟩
  obtain ⟨e, he⟩ := h.refuse rest
  exact ⟨e, by simp [he]⟩

theorem Refuses.run {α : Type} {decoder : Decoder α} {t : List Char}
    (h : Refuses (decoder maxDepth) t) (a : α) : run decoder (String.ofList t) ≠ .ok a := by
  obtain ⟨e, he⟩ := h.refuse []
  rw [List.append_nil] at he
  simp [Decoder.run, he]

theorem Reads.not_refuses {α : Type} {f : List Char → Except JsonError (α × List Char)}
    {t : List Char} {a : α} (h : Reads f t a) : ¬Refuses f t := by
  intro hrefuse
  obtain ⟨e, he⟩ := hrefuse.refuse []
  rw [h.read [] stops_nil] at he
  cases he

section Containers

variable {α : Type} {text : α → List Char}

theorem items_refused {item : List Char → Except JsonError (α × List Char)} {xs : List α}
    (h : ∀ x ∈ xs, Reads item (text x) x ∨ Refuses item (text x))
    (hx : ∃ x ∈ xs, Refuses item (text x)) (fuel : Nat) (acc : List α) (rest : List Char) :
    ∃ e, items item fuel acc (joined acc.isEmpty (xs.map text) ++ ']' :: rest) = .error e := by
  induction xs generalizing fuel acc with
  | nil => simp at hx
  | cons x xs ih =>
    cases fuel with
    | zero => exact ⟨_, rfl⟩
    | succ fuel =>
      have h := List.forall_mem_cons.1 h
      obtain hread | hrefuse := h.1
      · -- The item is read, so that a later one is refused.
        obtain ⟨y, hy, hrefuse⟩ := hx
        obtain rfl | hy := List.mem_cons.1 hy
        · exact absurd hrefuse hread.not_refuses
        obtain ⟨e, he⟩ := ih h.2 ⟨y, hy, hrefuse⟩ fuel (x :: acc)
        have hnext := nextItem_joined hread.front acc.isEmpty (xs.map text) (']' :: rest)
        have hvalue := hread.read _ (stops_joined (xs.map text) (.inl rfl) rest)
        simp only [List.isEmpty_cons] at he
        exact ⟨e, by simp [items, hnext, hvalue, he]⟩
      · obtain ⟨e, he⟩ := hrefuse.refuse (joined false (xs.map text) ++ ']' :: rest)
        have hnext := nextItem_joined hrefuse.front acc.isEmpty (xs.map text) (']' :: rest)
        exact ⟨e, by simp [items, hnext, he]⟩

theorem members_refused {value : List Char → Except JsonError (α × List Char)}
    {es : List (String × α)}
    (h : ∀ e ∈ es, Reads value (text e.2) e.2 ∨ Refuses value (text e.2))
    (hx : ∃ e ∈ es, Refuses value (text e.2)) (fuel : Nat) (acc : List (String × α))
    (rest : List Char) :
    ∃ err, members value fuel acc (joined acc.isEmpty (es.map (memberText text)) ++ '}' :: rest) =
      .error err := by
  induction es generalizing fuel acc with
  | nil => simp at hx
  | cons x es ih =>
    cases fuel with
    | zero => exact ⟨_, rfl⟩
    | succ fuel =>
      have h := List.forall_mem_cons.1 h
      have hnext := nextName_joined text x acc.isEmpty (es.map (memberText text)) ('}' :: rest)
      obtain hread | hrefuse := h.1
      · -- The member is read, so that a later one is refused.
        obtain ⟨y, hy, hrefuse⟩ := hx
        obtain rfl | hy := List.mem_cons.1 hy
        · exact absurd hrefuse hread.not_refuses
        obtain ⟨e, he⟩ := ih h.2 ⟨y, hy, hrefuse⟩ fuel (x :: acc)
        have hvalue := hread.read _ (stops_joined (es.map (memberText text)) (.inr rfl) rest)
        simp only [List.isEmpty_cons] at he
        exact ⟨e, by simp [members, hnext, string_escape, colon_cons, hvalue, he]⟩
      · obtain ⟨e, he⟩ := hrefuse.refuse (joined false (es.map (memberText text)) ++ '}' :: rest)
        exact ⟨e, by simp [members, hnext, string_escape, colon_cons, he]⟩

theorem object_refuses (text : α → List Char) {value : Decoder α} {depth : Nat}
    {es : List (String × α)}
    (h : ∀ e ∈ es, Reads (value depth) (text e.2) e.2 ∨ Refuses (value depth) (text e.2))
    (hx : ∃ e ∈ es, Refuses (value depth) (text e.2)) :
    Refuses (object value (depth + 1)) (objectChars (es.map fun e => (e.1, text e.2))) := by
  refine ⟨fronted_objectChars _, fun rest => ?_⟩
  obtain ⟨e, he⟩ := members_refused h hx
    ((joined true (es.map (memberText text)) ++ '}' :: rest).length + 1) [] rest
  refine ⟨e, ?_⟩
  simp only [objectChars_map, List.cons_append, List.append_assoc, List.nil_append]
  simpa [object, skipBlanks_cons, isBlank] using he

end Containers

section Records

variable {σ α : Type} {r : Record σ α} {depth : Nat} {f : Field σ} {name : String} {t : List Char}

theorem Record.Fills.members_refused {s s' : σ} {ms : List (String × List Char)}
    (h : r.Fills depth s ms s') (hf : r.fields.find? (fun f => f.name = name) = some f)
    (hset : f.isSet s' = false) (ht : Refuses (f.read s' depth) t)
    (ms' : List (String × List Char)) (fuel : Nat) (first : Bool) (rest : List Char) :
    ∃ e, r.members depth fuel first s
      (joined first ((ms ++ (name, t) :: ms').map (memberText fun t => t)) ++ '}' :: rest) =
        .error e := by
  -- The members before the one that is refused are read and fill their fields.
  induction h generalizing fuel first with
  | done =>
    cases fuel with
    | zero => exact ⟨_, rfl⟩
    | succ fuel =>
      have hnext := nextName_joined (fun t => t) (name, t) first
        (ms'.map (memberText fun t => t)) ('}' :: rest)
      obtain ⟨e, he⟩ := ht.refuse (joined false (ms'.map (memberText fun t => t)) ++ '}' :: rest)
      exact ⟨e, by simp [Record.members, Record.member, hnext, string_escape, colon_cons, hf,
        hset, he]⟩
  | @field s s₁ s' name₁ t₁ ms f₁ hf₁ hset₁ ht₁ h ih =>
    cases fuel with
    | zero => exact ⟨_, rfl⟩
    | succ fuel =>
      obtain ⟨e, he⟩ := ih hset ht fuel false
      rw [List.cons_append, List.map_cons]
      generalize (ms ++ (name, t) :: ms').map (memberText fun t => t) = us at he ⊢
      have hnext := nextName_joined (fun t => t) (name₁, t₁) first us ('}' :: rest)
      have hread := ht₁.read _ (stops_joined us (.inr rfl) rest)
      exact ⟨e, by simp [Record.members, Record.member, hnext, string_escape, colon_cons, hf₁,
        hset₁, hread, he]⟩

/-- A record is refused with one of its fields, after those that were read. -/
theorem Record.Fills.refuses {s : σ} {ms : List (String × List Char)}
    (h : r.Fills depth r.start ms s) (hf : r.fields.find? (fun f => f.name = name) = some f)
    (hset : f.isSet s = false) (ht : Refuses (f.read s depth) t)
    (ms' : List (String × List Char)) :
    Refuses (r.decoder (depth + 1)) (objectChars (ms ++ (name, t) :: ms')) := by
  refine ⟨fronted_objectChars _, fun rest => ?_⟩
  rw [objectChars_append]
  generalize hus : (ms ++ (name, t) :: ms').map (memberText fun t => t) = us
  obtain ⟨e, he⟩ := h.members_refused hf hset ht ms' ((joined true us ++ '}' :: rest).length + 1)
    true rest
  rw [hus] at he
  simp only [List.length_append, List.length_cons] at he
  exact ⟨e, by simp [Record.decoder, skipBlanks_cons, isBlank, he]⟩

end Records

/-! ## Values -/

/-- No value but a string is taken for an embedded text. -/
theorem text_refuses {v : Json} (h : ∀ s, v ≠ .str s) (expected : String) (depth : Nat) :
    Refuses (text expected depth) v.chars := by
  -- Only a string begins with a quote.
  have hquote : ∀ c cs, v.chars = c :: cs → c ≠ '"' := by
    rintro c cs hcs rfl
    cases v with
    | null => cases hcs
    | bool b => cases b <;> cases hcs
    | num n =>
      obtain ⟨d, ds, hds, hd⟩ := (numberText_chars n).head
      rw [chars, hds] at hcs
      obtain rfl := (List.cons.inj hcs).1
      simp [isDigit] at hd
    | str s => exact h s rfl
    | arr items => cases hcs
    | obj members => cases hcs
  refine ⟨fronted_chars v, fun rest => ?_⟩
  obtain ⟨c, cs, hcs, hblank, -⟩ := fronted_chars v
  rw [hcs, List.cons_append]
  exact ⟨_, by simp [text, skipBlanks_cons, hblank, hquote c cs hcs]; rfl⟩

/-- Behind an embedded text the object has to end. -/
theorem refuses_reserved (value : String → Except JsonError Json) (depth : Nat) (w : Json)
    {ms : List (String × Json)} (hms : ms ≠ []) :
    Refuses (valueWith (some value) (depth + 1)) (Json.obj ((embeddedName, w) :: ms)).chars := by
  refine ⟨fronted_chars _, fun rest => ?_⟩
  have hembedded : embedded? (joined true (memberText chars (embeddedName, w) ::
      ms.map (memberText chars)) ++ '}' :: rest) =
      some (':' :: (w.chars ++ (joined false (ms.map (memberText chars)) ++ '}' :: rest))) := by
    simp [embedded?, nextName_joined, string_escape]
  have hclose : closeObject (joined false (ms.map (memberText chars)) ++ '}' :: rest) =
      .error .trailingComma := by
    obtain ⟨m, ms, rfl⟩ := List.exists_cons_of_ne_nil hms
    simp [closeObject, joined, skipBlanks_cons, isBlank]
  rw [chars_obj_append, List.map_cons, valueWith_embedded hembedded, colon_cons]
  generalize joined false (ms.map (memberText chars)) ++ '}' :: rest = tail at hclose ⊢
  -- An embedded text is read, but then the object goes on; anything else is no text.
  by_cases hw : ∃ s, w = .str s
  · obtain ⟨s, rfl⟩ := hw
    have hread : text "raw value" depth ((Json.str s).chars ++ tail) = .ok (s, tail) := by
      simp [text, chars, quoteChars, skipBlanks_cons, isBlank, string_escape]
    cases hv : value s with
    | error e => exact ⟨e, by simp [hread, hv]⟩
    | ok v => exact ⟨.trailingComma, by simp [hread, hv, hclose]⟩
  · have hrefuse := text_refuses (fun s hs => hw ⟨s, hs⟩) "raw value" depth
    obtain ⟨e, he⟩ := hrefuse.refuse tail
    exact ⟨e, by simp [he]⟩

section Containers

variable {embedded : Option (String → Except JsonError Json)} {depth : Nat}

theorem refuses_arr {items : List Json}
    (h : ∀ v ∈ items, Reads (valueWith embedded depth) v.chars v ∨
      Refuses (valueWith embedded depth) v.chars)
    (hx : ∃ v ∈ items, Refuses (valueWith embedded depth) v.chars) :
    Refuses (valueWith embedded (depth + 1)) (Json.arr items).chars := by
  refine ⟨fronted_chars _, fun rest => ?_⟩
  obtain ⟨e, he⟩ := items_refused h hx
    ((joined true (items.map chars) ++ ']' :: rest).length + 1) [] rest
  simp only [List.length_append, List.length_cons, List.isEmpty_nil] at he
  refine ⟨e, ?_⟩
  rw [chars_arr_append, valueWith_list]
  simp [he]

theorem refuses_obj {members : List (String × Json)} (hplain : ¬StartsReserved members)
    (h : ∀ m ∈ members, Reads (valueWith embedded depth) m.2.chars m.2 ∨
      Refuses (valueWith embedded depth) m.2.chars)
    (hx : ∃ m ∈ members, Refuses (valueWith embedded depth) m.2.chars) :
    Refuses (valueWith embedded (depth + 1)) (Json.obj members).chars := by
  refine ⟨fronted_chars _, fun rest => ?_⟩
  obtain ⟨e, he⟩ := members_refused h hx
    ((joined true (members.map (memberText chars)) ++ '}' :: rest).length + 1) [] rest
  simp only [List.length_append, List.length_cons, List.isEmpty_nil] at he
  refine ⟨e, ?_⟩
  rw [chars_obj_append, valueWith_object fun _ => embedded?_joined hplain rest]
  simp [he]

/-- No container is read beyond the limit. -/
theorem refuses_zero {v : Json} (h : 0 < v.nesting) :
    Refuses (valueWith embedded 0) v.chars := by
  refine ⟨fronted_chars _, fun rest => ⟨.recursionLimit, ?_⟩⟩
  cases v with
  | arr items => rw [chars_arr_append, valueWith_zero (.inl rfl)]
  | obj members => rw [chars_obj_append, valueWith_zero (.inr rfl)]
  | null => simp [nesting] at h
  | bool b => simp [nesting] at h
  | num n => simp [nesting] at h
  | str s => simp [nesting] at h

end Containers

/-- A value is refused unless it is read back. -/
theorem readable_or_refuses (value : String → Except JsonError Json) (v : Json) :
    ∀ {depth : Nat}, v.Integral → Unembedded v →
      (Unreserved v ∧ v.nesting ≤ depth) ∨ Refuses (valueWith (some value) depth) v.chars := by
  induction v using Json.induction with
  | null => exact fun _ _ => .inl ⟨unreserved_of_nesting_eq_zero rfl, Nat.zero_le _⟩
  | bool b => exact fun _ _ => .inl ⟨unreserved_of_nesting_eq_zero rfl, Nat.zero_le _⟩
  | num n => exact fun _ _ => .inl ⟨unreserved_of_nesting_eq_zero rfl, Nat.zero_le _⟩
  | str s => exact fun _ _ => .inl ⟨unreserved_of_nesting_eq_zero rfl, Nat.zero_le _⟩
  | arr items ih =>
    intro depth hnum hsingle
    cases depth with
    | zero => exact .inr (refuses_zero (Nat.succ_pos _))
    | succ depth =>
      have hnum : ∀ v ∈ items, v.Integral := fun v hv n hn => hnum n (.item hv hn)
      have hor : ∀ v ∈ items, (Unreserved v ∧ v.nesting ≤ depth) ∨
          Refuses (valueWith (some value) depth) v.chars := fun v hv =>
        ih v hv (hnum v hv) fun w hw => hsingle w (.item hv hw)
      -- One item that is refused is enough; what comes before it can be read.
      by_cases hrefused : ∃ v ∈ items, Refuses (valueWith (some value) depth) v.chars
      · refine .inr (refuses_arr (fun v hv => (hor v hv).imp_left fun hreadable => ?_) hrefused)
        exact reads_value _ v (hnum v hv) hreadable.2 fun _ => hreadable.1
      · have hall : ∀ v ∈ items, Unreserved v ∧ v.nesting ≤ depth := fun v hv =>
          (hor v hv).resolve_right fun h => hrefused ⟨v, hv, h⟩
        refine .inl ⟨?_, Nat.succ_le_succ (itemNesting_le fun v hv => (hall v hv).2)⟩
        rintro members (_ | ⟨hv, hm⟩)
        exact (hall _ hv).1 members hm
  | obj members ih =>
    intro depth hnum hsingle
    cases depth with
    | zero => exact .inr (refuses_zero (Nat.succ_pos _))
    | succ depth =>
      -- A first member with the reserved name is refused in any case.
      by_cases hreserved : StartsReserved members
      · obtain ⟨w, ms, rfl⟩ := hreserved
        refine .inr (refuses_reserved value depth w ?_)
        rintro rfl
        exact hsingle w .whole
      have hnum : ∀ m ∈ members, m.2.Integral := fun m hm n hn => hnum n (.member hm hn)
      have hor : ∀ m ∈ members, (Unreserved m.2 ∧ m.2.nesting ≤ depth) ∨
          Refuses (valueWith (some value) depth) m.2.chars := fun m hm =>
        ih m hm (hnum m hm) fun w hw => hsingle w (.member hm hw)
      by_cases hrefused : ∃ m ∈ members, Refuses (valueWith (some value) depth) m.2.chars
      · refine .inr (refuses_obj hreserved
          (fun m hm => (hor m hm).imp_left fun hreadable => ?_) hrefused)
        exact reads_value _ m.2 (hnum m hm) hreadable.2 fun _ => hreadable.1
      · have hall : ∀ m ∈ members, Unreserved m.2 ∧ m.2.nesting ≤ depth := fun m hm =>
          (hor m hm).resolve_right fun h => hrefused ⟨m, hm, h⟩
        refine .inl ⟨?_, Nat.succ_le_succ (memberNesting_le fun m hm => (hall m hm).2)⟩
        rintro ms (_ | _ | ⟨hm, h⟩)
        · exact hreserved
        · exact (hall _ hm).1 ms h

end BlockFlow.Decoder
