import BlockFlow.Proofs.Json.Reading
import BlockFlow.Proofs.Json.Scalars
import BlockFlow.Proofs.Json.Trees

/-!
# What decoders make of trees

What a decoder makes of a value depends on the text of the value only (`Decoder.Local`): not on the
blanks in front of it, nor on what stands behind it. So a list is read by reading its items, and an
object by reading its names and the values of its members (`yields_list`, `yields_object`), wherever
blanks stand between them.

## Key results

- `yields_list`, `yields_object`: lists and objects are read part by part
- `yields_valueWith_list`, `yields_valueWith_object`: so are values of any type, but for embedded
  texts
- `run_tree`: what is read in a text is what is made of its tree
-/

namespace BlockFlow

namespace Json

open Decoder (outcome)

variable {α : Type}

/-- What a decoder makes of a value, where so many containers may still be opened. -/
def Tree.read (w : Tree) (decoder : Decoder α) (depth : Nat) : Option α :=
  outcome (decoder depth) w.chars

/-- The name of a member, none if an escape in it stands for no character. -/
def Key.name? (k : Key) : Option String := outcome Json.string k.name

/-- What a member says: its name and its value. -/
def Member.entry (m : Member Tree) : Option String × Tree := (m.key.name?, m.value)

/-- What a decoder makes of a member. -/
def readEntry (value : Decoder α) (depth : Nat) (e : Option String × Tree) :
    Option (String × α) :=
  e.1.bind fun name => (e.2.read value depth).map (name, ·)

end Json

namespace Decoder

open Json

variable {α β : Type}

/-- A reader judges a value by itself: blanks in front of it are skipped, and what stands behind it
does not matter, if only a number ends there. -/
structure Judges (f : List Char → Except JsonError (α × List Char)) : Prop where
  blanks : ∀ (bs : Blanks) cs, f (bs.chars ++ cs) = f cs
  yields : ∀ w : Tree, Yields f w.chars (outcome f w.chars)

/-- A reader judges a value by itself if it makes something of each. -/
theorem Judges.of_yields {f : List Char → Except JsonError (α × List Char)}
    (hblanks : ∀ (bs : Blanks) cs, f (bs.chars ++ cs) = f cs)
    (h : ∀ w : Tree, ∃ m, Yields f w.chars m) : Judges f := by
  refine ⟨hblanks, fun w => ?_⟩
  obtain ⟨m, hm⟩ := h w
  exact hm.yields_outcome

/-- A decoder that judges a value by itself, however many containers may be opened. -/
def Local (decoder : Decoder α) : Prop := ∀ depth, Judges (decoder depth)

theorem Yields.read_eq {decoder : Decoder α} {w : Tree} {depth : Nat} {m : Option α}
    (h : Yields (decoder depth) w.chars m) : w.read decoder depth = m := h.outcome_eq

/-- A value that is refused, whatever stands behind it. -/
theorem yields_none {f : List Char → Except JsonError (α × List Char)} {t : List Char}
    (h : ∀ rest, ∃ e, f (t ++ rest) = .error e) : Yields f t none := by
  intro rest _
  obtain ⟨e, he⟩ := h rest
  rw [he]
  rfl

/-! ## Scalars -/

/-- Where a string is due, everything else is refused. -/
theorem yields_text_none (expected : String) (depth : Nat) {c : Char} {cs : List Char}
    (hblank : isBlank c = false) (hc : c ≠ '"') : Yields (text expected depth) (c :: cs) none :=
  yields_none fun rest => ⟨_, by simp [text, skipBlanks_cons, hblank, hc]; rfl⟩

theorem yields_text (expected : String) (depth : Nat) {t : List Char} (ht : StringText t) :
    Yields (text expected depth) ('"' :: t) (outcome Json.string t) := by
  intro rest hrest
  rw [← yields_string ht rest hrest]
  simp [text, skipBlanks_cons, isBlank]

theorem read_text_list (expected : String) (depth : Nat) (gap : Blanks) (items : List (Item Tree)) :
    (Tree.list gap items).read (text expected) depth = none := by
  apply Yields.read_eq
  rw [Tree.chars_list]
  exact yields_text_none expected depth rfl (by decide)

theorem read_text_object (expected : String) (depth : Nat) (gap : Blanks)
    (members : List (Member Tree)) :
    (Tree.object gap members).read (text expected) depth = none := by
  apply Yields.read_eq
  rw [Tree.chars_object]
  exact yields_text_none expected depth rfl (by decide)

theorem local_text (expected : String) : Local (text expected) := by
  intro depth
  refine .of_yields (fun bs cs => by rw [text, text, bs.skipBlanks]) fun w => ?_
  -- Only a string can be the text; on any other value the decoder fails at its first character.
  cases w with
  | list gap items =>
    rw [Tree.chars_list]
    exact ⟨none, yields_text_none expected depth rfl (by decide)⟩
  | object gap members =>
    rw [Tree.chars_object]
    exact ⟨none, yields_text_none expected depth rfl (by decide)⟩
  | scalar t h =>
    rw [Tree.chars]
    cases h with
    | string ht => exact ⟨_, yields_text expected depth ht⟩
    | number ht =>
      obtain ⟨c, cs, rfl, hc⟩ := ht.head
      obtain ⟨d, ds, hd, hblank, -⟩ := ht.opens
      obtain ⟨rfl, rfl⟩ := List.cons.inj hd
      refine ⟨none, yields_text_none expected depth hblank ?_⟩
      rintro rfl
      simp [isDigit] at hc
    | null | true | false => exact ⟨none, yields_text_none expected depth rfl (by decide)⟩

theorem local_string : Local Decoder.string := local_text _

/-- A value may be read as it is written. -/
theorem yields_raw (w : Tree) (depth : Nat) :
    Yields (raw depth) w.chars (some (String.ofList w.chars)) := by
  intro rest hrest
  rw [raw, w.isRaw.rawValue hrest]
  rfl

theorem read_raw (w : Tree) (depth : Nat) : w.read raw depth = some (String.ofList w.chars) :=
  (yields_raw w depth).read_eq

theorem local_raw : Local raw := fun depth =>
  .of_yields (fun bs cs => by rw [raw, raw, rawValue, rawValue, bs.skipBlanks])
    fun w => ⟨_, yields_raw w depth⟩

/-! ## Decoders from others -/

section

variable {decoder : Decoder α}

/-- A decoded value may be judged. -/
theorem Local.refine (h : Local decoder) (judge : α → Except JsonError β) :
    Local (refine decoder judge) := fun depth =>
  .of_yields (fun bs cs => by rw [Decoder.refine, Decoder.refine, (h depth).blanks])
    fun w => ⟨_, ((h depth).yields w).refine judge⟩

theorem read_refine (h : Local decoder) (judge : α → Except JsonError β) (w : Tree) (depth : Nat) :
    w.read (Decoder.refine decoder judge) depth =
      (w.read decoder depth).bind fun a => (judge a).toOption :=
  Yields.read_eq (((h depth).yields w).refine judge)

/-- A decoded value may be turned into something else. -/
theorem Local.map (h : Local decoder) (g : α → β) :
    Local fun depth cs => do let (x, rest) ← decoder depth cs; return (g x, rest) := fun depth =>
  .of_yields (fun bs cs => by simp only [(h depth).blanks]) fun w => ⟨_, ((h depth).yields w).map g⟩

theorem read_map (h : Local decoder) (g : α → β) (w : Tree) (depth : Nat) :
    w.read (fun depth cs => do let (x, rest) ← decoder depth cs; return (g x, rest)) depth =
      (w.read decoder depth).map g :=
  Yields.read_eq (((h depth).yields w).map g)

end

/-! ## Lists -/

theorem nextItem_blanks (first : Bool) (bs : Blanks) (cs : List Char) :
    nextItem first (bs.chars ++ cs) = nextItem first cs := by
  rw [nextItem, nextItem, bs.skipBlanks]

theorem closeList_blanks (bs : Blanks) (cs : List Char) :
    closeList (bs.chars ++ cs) = closeList cs := by
  rw [closeList, closeList, bs.skipBlanks]

theorem items_blanks (item : List Char → Except JsonError (α × List Char)) (fuel : Nat)
    (acc : List α) (bs : Blanks) (cs : List Char) :
    items item fuel acc (bs.chars ++ cs) = items item fuel acc cs := by
  cases fuel with
  | zero => rfl
  | succ fuel => rw [items, items, nextItem_blanks, closeList_blanks]

theorem nextItem_item (first : Bool) (i : Item Tree) (ts : List (List Char)) (cs : List Char) :
    nextItem first (joined first (i.chars :: ts) ++ cs) =
      .ok (some (i.value.chars ++ (i.after.chars ++ (joined false ts ++ cs)))) := by
  obtain ⟨c, r, hc, hblank, hclose⟩ := i.value.fronted
  have hcomma : isBlank ',' = false := rfl
  cases first <;>
    simp [joined, nextItem, Item.chars, hc, skipBlanks_cons, hblank, hclose, hcomma,
      i.before.skipBlanks]

/-- No number goes on behind the value of an item or a member. -/
theorem stops_behind (i : Item Tree) (ts : List (List Char)) {close : Char}
    (hclose : close = ']' ∨ close = '}') (rest : List Char) :
    Stops (i.after.chars ++ (joined false ts ++ close :: rest)) :=
  i.after.stops (stops_joined ts hclose rest)

/-- Items are read one after the other. -/
theorem items_trees {item : List Char → Except JsonError (α × List Char)} {its : List (Item Tree)}
    (value : Tree → Option α) (h : ∀ i ∈ its, Yields item i.value.chars (value i.value))
    {fuel : Nat} (hfuel : its.length < fuel) (acc : List α) (rest : List Char) :
    (items item fuel acc (joined acc.isEmpty (its.map Item.chars) ++ ']' :: rest)).toOption =
      ((its.map (·.value)).mapM value).map fun xs => (acc.reverse ++ xs, rest) := by
  induction its generalizing fuel acc with
  | nil =>
    obtain ⟨fuel, rfl⟩ : ∃ n, fuel = n + 1 := ⟨fuel - 1, by simp at hfuel; omega⟩
    simp [items, nextItem, closeList, skipBlanks_cons, isBlank]
  | cons i its ih =>
    simp only [List.length_cons] at hfuel
    obtain ⟨fuel, rfl⟩ : ∃ n, fuel = n + 1 := ⟨fuel - 1, by omega⟩
    have h := List.forall_mem_cons.1 h
    have hnext := nextItem_item acc.isEmpty i (its.map Item.chars) (']' :: rest)
    have hread := h.1 _ (stops_behind i (its.map Item.chars) (.inl rfl) rest)
    rw [items, List.map_cons, hnext, List.map_cons, List.mapM_cons]
    cases hv : value i.value with
    | none =>
      rw [hv] at hread
      cases hitem : item (i.value.chars ++ (i.after.chars ++
          (joined false (its.map Item.chars) ++ ']' :: rest))) with
      | error e => simp [hitem]
      | ok p => rw [hitem] at hread; cases hread
    | some v =>
      rw [hv, Option.map_some, toOption_eq_some_iff] at hread
      have htail := ih h.2 (by omega : its.length < fuel) (v :: acc)
      rw [List.isEmpty_cons] at htail
      -- The blanks behind an item are skipped with those in front of the next one.
      simp only [hread, items_blanks, htail]
      cases (its.map (·.value)).mapM value <;> simp

theorem length_lt_texts {β : Type} (ts : List β) (text : β → List Char) (h : ∀ b, text b ≠ [])
    (gap : Blanks) (cs : List Char) :
    ts.length < (gap.chars ++ (joined true (ts.map text) ++ cs)).length + 1 := by
  have hle := length_le_joined (ts.map text) true (by simpa using fun b _ => h b)
  simp only [List.length_map, List.length_append] at hle ⊢
  omega

theorem item_chars_ne_nil (i : Item Tree) : i.chars ≠ [] := by
  simp [Item.chars, i.value.chars_ne_nil]

theorem member_chars_ne_nil (m : Member Tree) : m.chars ≠ [] := by
  simp [Member.chars, Key.chars]

/-! ### Lists and objects -/

section Lists

variable {item : Decoder α} {depth : Nat}

theorem yields_list (hitem : Judges (item depth)) (gap : Blanks) (its : List (Item Tree)) :
    Yields (list item (depth + 1)) (Tree.list gap its).chars
      ((its.map (·.value)).mapM (·.read item depth)) := by
  intro rest _
  have hread := items_trees (·.read item depth) (fun i _ => hitem.yields i.value)
    (length_lt_texts its Item.chars item_chars_ne_nil gap (']' :: rest)) [] rest
  rw [← items_blanks _ _ _ gap] at hread
  simpa [Tree.chars_list, list, skipBlanks_cons, isBlank] using hread

theorem yields_list_none {w : Tree} (h : depth = 0 ∨ ∀ gap items, w ≠ .list gap items) :
    Yields (list item depth) w.chars none := by
  obtain ⟨c, cs, hcs, hblank, hlist, -⟩ := w.exists_head
  refine yields_none fun rest => ?_
  rw [hcs, list, List.cons_append, skipBlanks_cons, hblank]
  simp only [Bool.false_eq_true, if_false]
  split
  · next hc =>
    obtain ⟨gap, items, rfl⟩ := hlist hc
    obtain rfl : depth = 0 := h.resolve_right fun h => h gap items rfl
    exact ⟨_, rfl⟩
  · exact ⟨_, rfl⟩

theorem local_list (hitem : Local item) : Local (list item) := by
  intro depth
  refine .of_yields (fun bs cs => by rw [list, list, bs.skipBlanks]) fun w => ?_
  by_cases h : depth = 0 ∨ ∀ gap items, w ≠ .list gap items
  · exact ⟨none, yields_list_none h⟩
  · simp only [not_or, not_forall, not_not] at h
    obtain ⟨hdepth, gap, items, rfl⟩ := h
    obtain ⟨depth, rfl⟩ := Nat.exists_eq_succ_of_ne_zero hdepth
    exact ⟨_, yields_list (hitem depth) gap items⟩

end Lists

/-! ## Objects -/

theorem nextName_blanks (first : Bool) (bs : Blanks) (cs : List Char) :
    nextName first (bs.chars ++ cs) = nextName first cs := by
  rw [nextName, nextName, bs.skipBlanks]

theorem closeObject_blanks (bs : Blanks) (cs : List Char) :
    closeObject (bs.chars ++ cs) = closeObject cs := by
  rw [closeObject, closeObject, bs.skipBlanks]

theorem members_blanks (value : List Char → Except JsonError (α × List Char)) (fuel : Nat)
    (acc : List (String × α)) (bs : Blanks) (cs : List Char) :
    members value fuel acc (bs.chars ++ cs) = members value fuel acc cs := by
  cases fuel with
  | zero => rfl
  | succ fuel => rw [members, members, nextName_blanks, closeObject_blanks]

/-- The text of a member after the quote that opens its name. -/
def afterQuote (m : Member Tree) (rest : List Char) : List Char :=
  m.key.name ++ (m.key.gap.chars ++ ':' ::
    (m.before.chars ++ (m.value.chars ++ (m.after.chars ++ rest))))

theorem nextName_member (first : Bool) (m : Member Tree) (ts : List (List Char))
    (cs : List Char) :
    nextName first (joined first (m.chars :: ts) ++ cs) =
      .ok (some (afterQuote m (joined false ts ++ cs))) := by
  have hquote : isBlank '"' = false := rfl
  have hcomma : isBlank ',' = false := rfl
  cases first <;>
    simp [joined, nextName, Member.chars, Key.chars, Item.chars, afterQuote, skipBlanks_cons,
      hquote, hcomma, m.key.lead.skipBlanks]

theorem colon_key (k : Key) (cs : List Char) : colon (k.gap.chars ++ ':' :: cs) = .ok cs := by
  rw [colon, k.gap.skipBlanks]
  rfl

/-- The name of a member is read up to its colon. -/
theorem string_key (k : Key) (cs : List Char) :
    (Json.string (k.name ++ (k.gap.chars ++ ':' :: cs))).toOption =
      k.name?.map (·, k.gap.chars ++ ':' :: cs) :=
  yields_string k.named _ (k.gap.stops (stops_cons.2 (by decide)))

section Objects

variable {value : Decoder α} {depth : Nat}

/-- A member is read by its name and its value. -/
theorem member_trees (hvalue : Judges (value depth)) (m : Member Tree) {rest : List Char}
    (hrest : Stops (m.after.chars ++ rest)) :
    (do
      let (name, rest) ← Json.string (afterQuote m rest)
      let rest ← colon rest
      let (v, rest) ← value depth rest
      return ((name, v), rest) : Except JsonError ((String × α) × List Char)).toOption =
      (readEntry value depth m.entry).map (·, m.after.chars ++ rest) := by
  have hname := string_key m.key (m.before.chars ++ (m.value.chars ++ (m.after.chars ++ rest)))
  have hread := hvalue.yields m.value _ hrest
  rw [readEntry, Member.entry, Tree.read, toOption_bind, afterQuote, hname]
  cases m.key.name? with
  | none => rfl
  | some name =>
    simp only [Option.map_some, Option.bind_some, colon_key, toOption_bind, toOption_ok,
      hvalue.blanks, hread]
    cases outcome (value depth) m.value.chars <;> rfl

/-- Members are read one after the other. -/
theorem members_trees (hvalue : Judges (value depth)) (ms : List (Member Tree)) {fuel : Nat}
    (hfuel : ms.length < fuel) (acc : List (String × α)) (rest : List Char) :
    (members (value depth) fuel acc
      (joined acc.isEmpty (ms.map Member.chars) ++ '}' :: rest)).toOption =
      ((ms.map Member.entry).mapM (readEntry value depth)).map fun es =>
        (acc.reverse ++ es, rest) := by
  induction ms generalizing fuel acc with
  | nil =>
    obtain ⟨fuel, rfl⟩ : ∃ n, fuel = n + 1 := ⟨fuel - 1, by simp at hfuel; omega⟩
    simp [members, nextName, closeObject, skipBlanks_cons, isBlank]
  | cons m ms ih =>
    simp only [List.length_cons] at hfuel
    obtain ⟨fuel, rfl⟩ : ∃ n, fuel = n + 1 := ⟨fuel - 1, by omega⟩
    have hnext := nextName_member acc.isEmpty m (ms.map Member.chars) ('}' :: rest)
    have hread := member_trees hvalue m
      (stops_behind m.toItem (ms.map Member.chars) (.inr rfl) rest)
    rw [members, List.map_cons, hnext, List.map_cons, List.mapM_cons]
    simp only
    -- Either both fail at this member, or both read it and go on with the rest.
    split
    · next e he =>
      rw [he] at hread
      cases hm : readEntry value depth m.entry with
      | none => rfl
      | some e => rw [hm] at hread; cases hread
    · next e r he =>
      rw [he] at hread
      cases hm : readEntry value depth m.entry with
      | none => rw [hm] at hread; cases hread
      | some e' =>
        rw [hm] at hread
        obtain ⟨rfl, rfl⟩ := Prod.mk.inj (Option.some.inj hread)
        have htail := ih (by omega : ms.length < fuel) (e :: acc)
        rw [List.isEmpty_cons] at htail
        rw [members_blanks, htail]
        cases (ms.map Member.entry).mapM (readEntry value depth) <;> simp

theorem yields_object (hvalue : Judges (value depth)) (gap : Blanks) (ms : List (Member Tree)) :
    Yields (object value (depth + 1)) (Tree.object gap ms).chars
      ((ms.map Member.entry).mapM (readEntry value depth)) := by
  intro rest _
  have hread := members_trees hvalue ms
    (length_lt_texts ms Member.chars member_chars_ne_nil gap ('}' :: rest)) [] rest
  rw [← members_blanks _ _ _ gap] at hread
  simpa [Tree.chars_object, object, skipBlanks_cons, isBlank] using hread

theorem yields_object_none {w : Tree}
    (h : depth = 0 ∨ ∀ gap members, w ≠ .object gap members) :
    Yields (object value depth) w.chars none := by
  obtain ⟨c, cs, hcs, hblank, -, hobject⟩ := w.exists_head
  refine yields_none fun rest => ?_
  rw [hcs, object, List.cons_append, skipBlanks_cons, hblank]
  simp only [Bool.false_eq_true, if_false]
  split
  · next hc =>
    obtain ⟨gap, members, rfl⟩ := hobject hc
    obtain rfl : depth = 0 := h.resolve_right fun h => h gap members rfl
    exact ⟨_, rfl⟩
  · exact ⟨_, rfl⟩

theorem local_object (hvalue : Local value) : Local (object value) := by
  intro depth
  refine .of_yields (fun bs cs => by rw [object, object, bs.skipBlanks]) fun w => ?_
  by_cases h : depth = 0 ∨ ∀ gap members, w ≠ .object gap members
  · exact ⟨none, yields_object_none h⟩
  · simp only [not_or, not_forall, not_not] at h
    obtain ⟨hdepth, gap, members, rfl⟩ := h
    obtain ⟨depth, rfl⟩ := Nat.exists_eq_succ_of_ne_zero hdepth
    exact ⟨_, yields_object (hvalue depth) gap members⟩

end Objects

/-! ## Values of any type -/

section Values

variable {embedded : Option (String → Except JsonError Json)} {depth : Nat} {gap : Blanks}

theorem valueWith_blanks (bs : Blanks) (cs : List Char) :
    valueWith embedded depth (bs.chars ++ cs) = valueWith embedded depth cs := by
  rw [valueWith.eq_def, valueWith.eq_def embedded depth cs, bs.skipBlanks]

theorem yields_valueWith_number {t : List Char} (ht : NumberText t) :
    Yields (valueWith embedded depth) t ((outcome number t).map .num) := by
  obtain ⟨c, cs, rfl, hc⟩ := ht.head
  intro rest hrest
  rw [← ((yields_number ht).map Json.num) rest hrest, List.cons_append, valueWith_number hc]

theorem yields_valueWith_string {t : List Char} (ht : StringText t) :
    Yields (valueWith embedded depth) ('"' :: t) ((outcome Json.string t).map .str) := by
  intro rest hrest
  rw [← ((yields_string ht).map Json.str) rest hrest, List.cons_append, valueWith_string]

theorem yields_valueWith_scalar {t : List Char} (h : ScalarText t) :
    ∃ m, Yields (valueWith embedded depth) t m := by
  cases h with
  | null => exact ⟨some .null, fun rest _ => by simp [valueWith, skipBlanks_cons, isBlank, literal]⟩
  | true =>
    exact ⟨some (.bool true), fun rest _ => by
      simp [valueWith, skipBlanks_cons, isBlank, literal]⟩
  | false =>
    exact ⟨some (.bool false), fun rest _ => by
      simp [valueWith, skipBlanks_cons, isBlank, literal]⟩
  | number ht => exact ⟨_, yields_valueWith_number ht⟩
  | string ht => exact ⟨_, yields_valueWith_string ht⟩

theorem yields_valueWith_list (h : Judges (valueWith embedded depth)) (gap : Blanks)
    (its : List (Item Tree)) :
    Yields (valueWith embedded (depth + 1)) (Tree.list gap its).chars
      (((its.map Item.value).mapM (Tree.read · (valueWith embedded) depth)).map .arr) := by
  intro rest _
  have hread := items_trees (·.read (valueWith embedded) depth) (fun i _ => h.yields i.value)
    (length_lt_texts its Item.chars item_chars_ne_nil gap (']' :: rest)) [] rest
  rw [← items_blanks _ _ _ gap, List.isEmpty_nil] at hread
  simp only [Tree.chars_list, List.cons_append, List.append_assoc, List.nil_append, valueWith_list,
    toOption_bind, hread]
  cases (its.map Item.value).mapM (Tree.read · (valueWith embedded) depth) <;> rfl

/-- Whether the first of some members announces an embedded text. -/
def Announces (ms : List (Member Tree)) : Prop :=
  ∃ m ms', ms = m :: ms' ∧ m.key.name? = some embeddedName

theorem embedded?_blanks (bs : Blanks) (cs : List Char) :
    embedded? (bs.chars ++ cs) = embedded? cs := by
  rw [embedded?, embedded?, nextName_blanks]

theorem embedded?_trees {ms : List (Member Tree)} (h : ¬Announces ms) (rest : List Char) :
    embedded? (joined true (ms.map Member.chars) ++ '}' :: rest) = none := by
  cases ms with
  | nil => simp [embedded?, nextName, skipBlanks_cons, isBlank]
  | cons m ms =>
    have hread := string_key m.key (m.before.chars ++ (m.value.chars ++ (m.after.chars ++
      (joined false (ms.map Member.chars) ++ '}' :: rest))))
    rw [embedded?, List.map_cons, nextName_member, afterQuote]
    simp only
    split
    · next name r hr =>
      rw [hr, toOption_ok, eq_comm, Option.map_eq_some_iff] at hread
      obtain ⟨name', hname, heq⟩ := hread
      obtain ⟨rfl, -⟩ := Prod.mk.inj heq
      -- The name of the first member would have to be the reserved one.
      rw [if_neg]
      rintro rfl
      exact h ⟨m, ms, rfl, hname⟩
    · rfl

theorem yields_valueWith_object (h : Judges (valueWith embedded depth)) (gap : Blanks)
    {ms : List (Member Tree)} (hplain : embedded.isSome = true → ¬Announces ms) :
    Yields (valueWith embedded (depth + 1)) (Tree.object gap ms).chars
      (((ms.map Member.entry).mapM (readEntry (valueWith embedded) depth)).map .obj) := by
  intro rest _
  have hread := members_trees h ms
    (length_lt_texts ms Member.chars member_chars_ne_nil gap ('}' :: rest)) [] rest
  rw [← members_blanks _ _ _ gap, List.isEmpty_nil] at hread
  have hnone : embedded.isSome = true →
      embedded? (gap.chars ++ (joined true (ms.map Member.chars) ++ '}' :: rest)) = none :=
    fun he => by rw [embedded?_blanks, embedded?_trees (hplain he)]
  simp only [Tree.chars_object, List.cons_append, List.append_assoc, List.nil_append,
    valueWith_object hnone, toOption_bind, hread]
  cases (ms.map Member.entry).mapM (readEntry (valueWith embedded) depth) <;> rfl

/-- An object that announces an embedded text has that member only. -/
theorem yields_valueWith_embedded (value : String → Except JsonError Json) (gap : Blanks)
    {m : Member Tree} (hname : m.key.name? = some embeddedName) (ms : List (Member Tree)) :
    Yields (valueWith (some value) (depth + 1)) (Tree.object gap (m :: ms)).chars
      (if ms = [] then
        (m.value.read (text "raw value") depth).bind fun s => (value s).toOption
      else none) := by
  intro rest _
  generalize htail : m.after.chars ++ (joined false (ms.map Member.chars) ++ '}' :: rest) = tail
  have hstops : Stops tail := by
    rw [← htail]
    exact stops_behind m.toItem (ms.map Member.chars) (.inr rfl) rest
  have hread := string_key m.key (m.before.chars ++ (m.value.chars ++ tail))
  rw [hname, Option.map_some, toOption_eq_some_iff] at hread
  have hembedded : embedded? (gap.chars ++
      (joined true ((m :: ms).map Member.chars) ++ '}' :: rest)) =
      some (m.key.gap.chars ++ ':' :: (m.before.chars ++ (m.value.chars ++ tail))) := by
    rw [embedded?_blanks, embedded?, List.map_cons, nextName_member, afterQuote, htail]
    simp only [hread, if_true]
  -- Another member in the place of the closing brace is refused.
  have hclose : (closeObject tail).toOption = if ms = [] then some rest else none := by
    rw [← htail, closeObject_blanks]
    cases ms with
    | nil => rfl
    | cons m ms => simp [closeObject, joined, skipBlanks_cons, isBlank]
  have hvalue := ((local_text "raw value" depth).yields m.value) tail hstops
  simp only [Tree.chars_object, List.cons_append, List.append_assoc, List.nil_append,
    valueWith_embedded hembedded, colon_key, ok_bind, toOption_bind,
    (local_text "raw value" depth).blanks, hvalue, Tree.read]
  cases outcome (text "raw value" depth) m.value.chars with
  | none => simp
  | some s =>
    cases hv : value s with
    | error e => simp [hv]
    | ok v => cases ms <;> simp [hv, hclose]

theorem yields_valueWith_zero {w : Tree} (h : ∀ t ht, w ≠ .scalar t ht) :
    Yields (valueWith embedded 0) w.chars none := by
  cases w with
  | scalar t ht => exact absurd rfl (h t ht)
  | list gap items =>
    exact yields_none fun rest => ⟨_, by rw [Tree.chars_list, List.cons_append,
      valueWith_zero (.inl rfl)]⟩
  | object gap members =>
    exact yields_none fun rest => ⟨_, by rw [Tree.chars_object, List.cons_append,
      valueWith_zero (.inr rfl)]⟩

theorem local_valueWith (embedded : Option (String → Except JsonError Json)) :
    Local (valueWith embedded) := by
  intro depth
  induction depth with
  | zero =>
    refine .of_yields valueWith_blanks fun w => ?_
    cases w with
    | scalar t h => exact yields_valueWith_scalar h
    | list | object => exact ⟨_, yields_valueWith_zero (by simp)⟩
  | succ depth ih =>
    refine .of_yields valueWith_blanks fun w => ?_
    cases w with
    | scalar t h => exact yields_valueWith_scalar h
    | list gap items => exact ⟨_, yields_valueWith_list ih gap items⟩
    | object gap members =>
      -- An object that announces an embedded text is read otherwise, from its first member alone.
      by_cases hplain : embedded.isSome = true → ¬Announces members
      · exact ⟨_, yields_valueWith_object ih gap hplain⟩
      · simp only [Classical.not_imp, not_not] at hplain
        obtain ⟨hsome, m, ms, rfl, hname⟩ := hplain
        obtain ⟨value, rfl⟩ := Option.isSome_iff_exists.1 hsome
        exact ⟨_, yields_valueWith_embedded value gap hname ms⟩

end Values

/-! ## Whole texts -/

/-- What is read in a text is what is made of its tree, whatever blanks stand around it. -/
theorem run_tree {decoder : Decoder α} (h : Local decoder) (before : Blanks) (w : Tree)
    (after : Blanks) :
    (run decoder (String.ofList (before.chars ++ (w.chars ++ after.chars)))).toOption =
      w.read decoder maxDepth := by
  have hend : skipBlanks after.chars = [] := by
    have h := after.skipBlanks []
    rwa [List.append_nil] at h
  have hstops : Stops after.chars := by
    have h := after.stops stops_nil
    rwa [List.append_nil] at h
  have hread := (h maxDepth).yields w after.chars hstops
  rw [run, String.toList_ofList, toOption_bind, (h maxDepth).blanks, hread, Tree.read]
  cases outcome (decoder maxDepth) w.chars <;> simp [hend]

end Decoder

end BlockFlow
