import Mathlib.Data.Set.List
import BlockFlow.Proofs.Json.Writing

/-!
# Values as they are written

A `Tree` is a value with every character of its text: the blanks between its tokens, the digits of
its numbers and the escapes of its strings. Only well-formed texts are texts of trees, since a tree
holds the grammar of its scalars and names. The texts of trees are the raw values (`Tree.isRaw`,
`exists_tree`): a run that skips a value comes over the text of a tree, which is found by going from
each round to what is still demanded behind it (`RestText.demands`).

## Key results

- `isRaw_iff_exists_tree`: the raw values are the texts of trees
-/

namespace BlockFlow.Json

/-- Blanks between tokens. -/
structure Blanks where
  chars : List Char
  blank : ∀ c ∈ chars, isBlank c = true

namespace Blanks

/-- No blanks. -/
def none : Blanks := ⟨[], by simp⟩

/-- One more blank. -/
def cons (c : Char) (hc : isBlank c = true) (bs : Blanks) : Blanks :=
  ⟨c :: bs.chars, List.forall_mem_cons.2 ⟨hc, bs.blank⟩⟩

/-- Blanks behind blanks. -/
def append (bs bs' : Blanks) : Blanks :=
  ⟨bs.chars ++ bs'.chars, List.forall_mem_append.2 ⟨bs.blank, bs'.blank⟩⟩

/-- The blanks that a text begins with. -/
theorem exists_eq (cs : List Char) : ∃ bs : Blanks, cs = bs.chars ++ Json.skipBlanks cs := by
  obtain ⟨bs, hcs, hbs⟩ := exists_blanks cs
  exact ⟨⟨bs, hbs⟩, hcs⟩

theorem skipBlanks (bs : Blanks) (cs : List Char) :
    Json.skipBlanks (bs.chars ++ cs) = Json.skipBlanks cs := skipBlanks_append bs.blank cs

/-- No number goes on after a blank. -/
theorem stops (bs : Blanks) {cs : List Char} (h : Stops cs) : Stops (bs.chars ++ cs) := by
  obtain ⟨bs, hbs⟩ := bs
  cases bs with
  | nil => exact h
  | cons b bs => exact stops_cons.2 (extendsNumber_of_isBlank (hbs b (by simp)))

end Blanks

/-- The name of a member up to its colon, with the blanks around it. -/
structure Key where
  lead : Blanks
  /-- The name after its opening quote. -/
  name : List Char
  named : StringText name
  gap : Blanks

/-- The text of a name and its colon. -/
def Key.chars (k : Key) : List Char :=
  k.lead.chars ++ '"' :: (k.name ++ (k.gap.chars ++ [':']))

theorem Key.keyText (k : Key) : KeyText k.chars := .mk k.lead.blank k.named k.gap.blank

theorem KeyText.exists_key {t : List Char} (h : KeyText t) : ∃ k : Key, k.chars = t := by
  obtain @⟨bs, name, bs', hbs, hname, hbs'⟩ := h
  exact ⟨⟨⟨bs, hbs⟩, name, hname, ⟨bs', hbs'⟩⟩, rfl⟩

/-- A value with the blanks around it. -/
structure Item (α : Type) where
  before : Blanks
  value : α
  after : Blanks

/-- A value with its name in front. -/
structure Member (α : Type) extends Item α where
  key : Key

/-- A value as it is written. -/
inductive Tree where
  | scalar (t : List Char) (h : ScalarText t)
  | list (gap : Blanks) (items : List (Item Tree))
  | object (gap : Blanks) (members : List (Member Tree))

namespace Tree

/-! ## The text of a tree -/

mutual

/-- The text of a value. -/
def chars : Tree → List Char
  | .scalar t _ => t
  | .list gap items => '[' :: (gap.chars ++ (joined true (itemTexts items) ++ [']']))
  | .object gap members => '{' :: (gap.chars ++ (joined true (memberTexts members) ++ ['}']))

/-- The texts of items. -/
def itemTexts : List (Item Tree) → List (List Char)
  | [] => []
  | ⟨before, value, after⟩ :: items =>
    (before.chars ++ (chars value ++ after.chars)) :: itemTexts items

/-- The texts of members. -/
def memberTexts : List (Member Tree) → List (List Char)
  | [] => []
  | ⟨⟨before, value, after⟩, key⟩ :: members =>
    (key.chars ++ (before.chars ++ (chars value ++ after.chars))) :: memberTexts members

end

end Tree

/-- The text of a value with the blanks around it. -/
def Item.chars (i : Item Tree) : List Char :=
  i.before.chars ++ (i.value.chars ++ i.after.chars)

/-- The text of a member. -/
def Member.chars (m : Member Tree) : List Char := m.key.chars ++ m.toItem.chars

namespace Tree

theorem itemTexts_eq (items : List (Item Tree)) : itemTexts items = items.map Item.chars := by
  induction items with
  | nil => rfl
  | cons i items ih => rw [itemTexts, ih, List.map_cons]; rfl

theorem memberTexts_eq (members : List (Member Tree)) :
    memberTexts members = members.map Member.chars := by
  induction members with
  | nil => rfl
  | cons m members ih => rw [memberTexts, ih, List.map_cons]; rfl

theorem chars_list (gap : Blanks) (items : List (Item Tree)) :
    (list gap items).chars = '[' :: (gap.chars ++ (joined true (items.map Item.chars) ++ [']'])) := by
  rw [chars, itemTexts_eq]

theorem chars_object (gap : Blanks) (members : List (Member Tree)) :
    (object gap members).chars =
      '{' :: (gap.chars ++ (joined true (members.map Member.chars) ++ ['}'])) := by
  rw [chars, memberTexts_eq]

/-- Induction on a tree, by the items of lists and the members of objects. -/
theorem induction {P : Tree → Prop} (scalar : ∀ t h, P (.scalar t h))
    (list : ∀ gap items, (∀ i ∈ items, P i.value) → P (.list gap items))
    (object : ∀ gap members, (∀ m ∈ members, P m.value) → P (.object gap members)) (w : Tree) :
    P w := by
  -- The motives for the lists say that the values in them have the property.
  refine @Tree.rec P (fun items => ∀ i ∈ items, P i.value)
    (fun members => ∀ m ∈ members, P m.value) (fun i => P i.value) (fun m => P m.value)
    scalar list object ?_ ?_ ?_ ?_ ?_ ?_ w
  · simp
  · intro i items hi hitems
    exact List.forall_mem_cons.2 ⟨hi, hitems⟩
  · simp
  · intro m members hm hmembers
    exact List.forall_mem_cons.2 ⟨hm, hmembers⟩
  · intro before value after hvalue
    exact hvalue
  · intro i key hi
    exact hi

/-- A text begins like a value. -/
theorem fronted (w : Tree) : Fronted w.chars := by
  cases w with
  | scalar t h => exact h.opens.fronted
  | list gap items => exact ⟨'[', _, chars_list gap items, by decide⟩
  | object gap members => exact ⟨'{', _, chars_object gap members, by decide⟩

/-- Only containers begin with a bracket. -/
theorem exists_head (w : Tree) :
    ∃ c cs, w.chars = c :: cs ∧ isBlank c = false ∧ (c = '[' → ∃ gap items, w = list gap items) ∧
      (c = '{' → ∃ gap members, w = object gap members) := by
  cases w with
  | scalar t h =>
    obtain ⟨c, cs, rfl, hblank, hlist, -, hobject, -⟩ := h.opens
    exact ⟨c, cs, rfl, hblank, fun hc => absurd hc hlist, fun hc => absurd hc hobject⟩
  | list gap items =>
    exact ⟨'[', _, chars_list gap items, rfl, fun _ => ⟨gap, items, rfl⟩,
      fun hc => absurd hc (by decide)⟩
  | object gap members =>
    exact ⟨'{', _, chars_object gap members, rfl, fun hc => absurd hc (by decide),
      fun _ => ⟨gap, members, rfl⟩⟩

theorem chars_ne_nil (w : Tree) : w.chars ≠ [] := by
  obtain ⟨c, cs, h, -⟩ := w.fronted
  simp [h]

end Tree

/-! ## Trees are skipped -/

/-- A whole value is one in a container, with blanks around it. -/
theorem Whole.item {i : Item Tree} (h : Whole i.value.chars) : Inner i.chars := by
  intro frame stack rest hrest
  have hafter := RestText.blanks (.inr (by simp)) i.after.blank hrest
  have hvalue := RestText.blanks (.inl rfl) i.before.blank (h _ _ hafter)
  simpa [Item.chars] using hvalue

theorem Tree.whole (w : Tree) : Whole w.chars := by
  induction w using Tree.induction with
  | scalar t h => exact h.whole
  | list gap items ih =>
    intro stack rest hrest
    -- What stands inside goes on top of whatever stack there is.
    have hinner : ∀ t ∈ items.map Item.chars, Inner t := by
      intro t ht
      obtain ⟨i, hi, rfl⟩ := List.mem_map.1 ht
      exact (ih i hi).item
    have hitems := restText_items hinner hrest true
    have hgap := RestText.blanks (.inr (by simp)) gap.blank hitems
    have henter := RestText.round (.enter .list) hgap
    simpa [chars_list, Frame.opening] using henter
  | object gap members ih =>
    intro stack rest hrest
    have hparts : ∀ p ∈ members.map fun m => (m.key.chars, m.toItem.chars),
        KeyText p.1 ∧ Inner p.2 := by
      intro p hp
      obtain ⟨m, hm, rfl⟩ := List.mem_map.1 hp
      exact ⟨m.key.keyText, (ih m hm).item⟩
    have hmembers := restText_members hparts hrest true
    have hmap : (members.map fun m => (m.key.chars, m.toItem.chars)).map (fun p => p.1 ++ p.2) =
        members.map Member.chars := by
      rw [List.map_map]
      rfl
    rw [hmap] at hmembers
    have hgap := RestText.blanks (.inr (by simp)) gap.blank hmembers
    have henter := RestText.round (.enter .object) hgap
    rw [chars_object]
    simpa [Frame.opening] using henter

/-- The text of a tree is a raw value. -/
theorem Tree.isRaw (w : Tree) : IsRaw w.chars := by
  have h := w.whole [] [] (.done (by simp))
  rw [List.append_nil] at h
  exact ⟨w.fronted, h⟩

/-- A tree is skipped with the blanks in front of it. -/
theorem Tree.skipValue (w : Tree) (bs : Blanks) {rest : List Char} (hrest : Stops rest) :
    skipValue (bs.chars ++ (w.chars ++ rest)) = .ok rest := by
  have h := RestText.blanks (.inl rfl) bs.blank w.isRaw.text
  rw [← List.append_assoc]
  apply h.skipRun hrest
  simp only [List.length_append, SkipState.extra]
  omega

/-! ## What is skipped is a tree -/

/-- A text of what a container holds. -/
def Frame.Holds : Frame → List Char → Prop
  | .list, t => ∃ i : Item Tree, i.chars = t
  | .object, t => ∃ m : Member Tree, m.chars = t

/-- What a run demands of a text, by its state: a value, or what a container still holds, and then
what is demanded behind it. -/
def Demands : SkipState → List Frame → List Char → Prop
  | .value, stack, t =>
    ∃ (bs : Blanks) (w : Tree) (r : List Char),
      t = bs.chars ++ (w.chars ++ r) ∧ RestText .filled stack r
  | .opened, frame :: stack, t =>
    ∃ (gap : Blanks) (ts : List (List Char)) (r : List Char),
      t = gap.chars ++ (joined true ts ++ frame.close :: r) ∧ (∀ t ∈ ts, frame.Holds t) ∧
        RestText .filled stack r
  | .filled, frame :: stack, t =>
    ∃ (gap : Blanks) (ts : List (List Char)) (r : List Char),
      t = gap.chars ++ (joined false ts ++ frame.close :: r) ∧ (∀ t ∈ ts, frame.Holds t) ∧
        RestText .filled stack r
  | _, [], _ => True

section

variable {st : SkipState} {stack : List Frame} {t : List Char}

theorem Demands.blank {c : Char} (hc : isBlank c = true) (h : Demands st stack t) :
    Demands st stack (c :: t) := by
  cases st with
  | value =>
    obtain ⟨bs, w, r, rfl, hr⟩ := h
    exact ⟨bs.cons c hc, w, r, rfl, hr⟩
  | opened | filled =>
    cases stack with
    | nil => trivial
    | cons frame stack =>
      obtain ⟨gap, ts, r, rfl, hts, hr⟩ := h
      exact ⟨gap.cons c hc, ts, r, rfl, hts, hr⟩

/-- One more item or member stands in front of what a container still holds. -/
theorem Demands.next {frame : Frame} (h : Demands .value (frame :: stack) t)
    (hrest : ∀ r, r.length < t.length → RestText .filled (frame :: stack) r →
      Demands .filled (frame :: stack) r)
    {k : List Char} (hk : ∀ i : Item Tree, frame.Holds (k ++ i.chars)) :
    ∃ t' ts r, k ++ t = t' ++ (joined false ts ++ frame.close :: r) ∧
      (∀ u ∈ t' :: ts, frame.Holds u) ∧ RestText .filled stack r := by
  obtain ⟨bs, w, r, rfl, hr⟩ := h
  have hpos := List.length_pos_iff.2 w.chars_ne_nil
  obtain ⟨gap, ts, r', rfl, hts, hr'⟩ := hrest r (by simp; omega) hr
  refine ⟨k ++ (Item.mk bs w gap).chars, ts, r', ?_, List.forall_mem_cons.2 ⟨hk _, hts⟩, hr'⟩
  simp [Item.chars]

/-- What is demanded of a text is trees. -/
theorem RestText.demands (h : RestText st stack t) : Demands st stack t := by
  -- Behind a value a run is in its container again, so that this goes by what a run has to do.
  generalize hn : 2 * t.length + st.extra = n
  induction n using Nat.strongRecOn generalizing st stack t with
  | ind n ih =>
    cases h with
    | done hst => cases st <;> trivial
    | @blank _ _ c t hst hc ht =>
      simp only [List.length_cons] at hn
      exact (ih _ (by omega) ht rfl).blank hc
    | @round _ st' _ stack' s t hs ht =>
      have hextra := hs.extra_lt
      rw [List.length_append] at hn
      have hnext := ih _ (by omega) ht rfl
      -- What follows an item or member is demanded of a shorter text.
      have hrest : ∀ {frame stack} r, r.length < t.length → RestText .filled (frame :: stack) r →
          Demands .filled (frame :: stack) r := by
        intro frame stack r hlt hr
        refine ih _ ?_ hr rfl
        have : SkipState.filled.extra ≤ st.extra + 1 := by cases st <;> simp [SkipState.extra]
        omega
      cases hs with
      | scalar hs => exact ⟨.none, .scalar s hs, t, rfl, ht⟩
      | enter frame =>
        obtain ⟨gap, ts, r, rfl, hts, hr⟩ := hnext
        cases frame with
        | list =>
          obtain ⟨items, rfl⟩ : ts ∈ Set.range (List.map Item.chars) := by
            rw [Set.range_list_map]
            exact hts
          exact ⟨.none, .list gap items, r, by simp [Tree.chars_list, Blanks.none, Frame.opening,
            Frame.close], hr⟩
        | object =>
          obtain ⟨members, rfl⟩ : ts ∈ Set.range (List.map Member.chars) := by
            rw [Set.range_list_map]
            exact hts
          exact ⟨.none, .object gap members, r, by simp [Tree.chars_object, Blanks.none,
            Frame.opening, Frame.close], hr⟩
      | leave frame hst =>
        cases st with
        | value => contradiction
        | opened | filled => exact ⟨.none, [], t, by simp [Blanks.none], by simp, ht⟩
      | item =>
        obtain ⟨t', ts, r, heq, hts, hr⟩ := hnext.next hrest (k := []) fun i => ⟨i, rfl⟩
        exact ⟨.none, t' :: ts, r, by simpa [Blanks.none, joined] using heq, hts, hr⟩
      | nextItem =>
        obtain ⟨t', ts, r, heq, hts, hr⟩ := hnext.next hrest (k := []) fun i => ⟨i, rfl⟩
        exact ⟨.none, t' :: ts, r, by simpa [Blanks.none, joined] using heq, hts, hr⟩
      | member hk =>
        obtain ⟨key, rfl⟩ := hk.exists_key
        obtain ⟨t', ts, r, heq, hts, hr⟩ := hnext.next hrest (k := key.chars) fun i => ⟨⟨i, key⟩, rfl⟩
        exact ⟨.none, t' :: ts, r, by simpa [Blanks.none, joined] using heq, hts, hr⟩
      | nextMember hk =>
        obtain ⟨key, rfl⟩ := hk.exists_key
        obtain ⟨t', ts, r, heq, hts, hr⟩ := hnext.next hrest (k := key.chars) fun i => ⟨⟨i, key⟩, rfl⟩
        exact ⟨.none, t' :: ts, r, by simpa [Blanks.none, joined] using heq, hts, hr⟩

end

/-- A text over which a run has come is a tree behind blanks. -/
theorem exists_tree_of_skipValue {cs rest : List Char} (h : skipValue cs = .ok rest) :
    ∃ (bs : Blanks) (w : Tree), cs = bs.chars ++ (w.chars ++ rest) := by
  obtain ⟨t, rfl, ht⟩ := exists_restText h
  obtain ⟨bs, w, r, rfl, hr⟩ := ht.demands
  obtain rfl : r = [] := by
    cases hr with
    | done => rfl
    | blank hst => simp at hst
    | round hs => cases hs
  exact ⟨bs, w, by simp⟩

/-- The raw values are the texts of trees. -/
theorem isRaw_iff_exists_tree {t : List Char} : IsRaw t ↔ ∃ w : Tree, w.chars = t := by
  constructor
  · intro h
    obtain ⟨bs, w, ht⟩ := exists_tree_of_skipValue (h.skipValue stops_nil)
    rw [List.append_nil, List.append_nil] at ht
    have hfront := h.front.skipBlanks []
    rw [List.append_nil, ht, bs.skipBlanks] at hfront
    have hfront' := w.fronted.skipBlanks []
    rw [List.append_nil] at hfront'
    exact ⟨w, by rw [ht, ← hfront, hfront']⟩
  · rintro ⟨w, rfl⟩
    exact w.isRaw

end BlockFlow.Json
