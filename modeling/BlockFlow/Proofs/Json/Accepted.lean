import BlockFlow.Proofs.Json.Records

/-!
# What is read is written as a tree

Whatever a decoder reads, it took the text of a tree off the text it was given
(`Decoder.TakesTrees`): a list was read from the texts of its items, an object from those of its
members, and a value that was passed over is a raw one. So every text in which something is read is
the text of a tree between blanks (`TakesTrees.exists_tree`).

## Key results

- `TakesTrees.list`, `TakesTrees.object`, `TakesTrees.record`, `takesTrees_valueWith`: the decoders
  take trees off
- `TakesTrees.exists_tree`: a text that is read is that of a tree
-/

namespace BlockFlow

namespace Decoder

open Json

variable {σ α β : Type}

/-- What a reader takes off a text is a tree behind blanks. -/
def TakesTrees (f : List Char → Except JsonError (α × List Char)) : Prop :=
  ∀ cs a rest, f cs = .ok (a, rest) →
    ∃ (bs : Blanks) (w : Tree), cs = bs.chars ++ (w.chars ++ rest)

/-! ## Scalars -/

theorem takesTrees_text (expected : String) (depth : Nat) : TakesTrees (text expected depth) := by
  intro cs s rest h
  obtain ⟨bs, hcs⟩ := Blanks.exists_eq cs
  rw [text] at h
  split at h
  · cases h
  next c r hr =>
  split at h
  · next hc =>
    obtain ⟨t, rfl, ht⟩ := stringText_of_string h
    exact ⟨bs, .scalar _ (.string ht), by rw [hcs, hr, hc]; rfl⟩
  · cases h

theorem takesTrees_raw (depth : Nat) : TakesTrees (raw depth) := by
  intro cs s rest h
  obtain ⟨bs, hcs⟩ := Blanks.exists_eq cs
  obtain ⟨r, hskip, h⟩ := exists_of_bind_ok h
  obtain ⟨-, rfl⟩ := Prod.mk.inj (Except.ok.inj h)
  obtain ⟨bs', w, hw⟩ := exists_tree_of_skipValue hskip
  exact ⟨bs.append bs', w, by rw [hcs, hw, Blanks.append, List.append_assoc]⟩

/-! ## Decoders from others -/

theorem TakesTrees.refine {decoder : Decoder α} {depth : Nat} (h : TakesTrees (decoder depth))
    (judge : α → Except JsonError β) : TakesTrees (refine decoder judge depth) := by
  intro cs b rest hread
  obtain ⟨⟨a, r⟩, ha, hread⟩ := exists_of_bind_ok hread
  obtain ⟨b', -, hread⟩ := exists_of_bind_ok hread
  obtain ⟨-, rfl⟩ := Prod.mk.inj (Except.ok.inj hread)
  exact h _ _ _ ha

theorem TakesTrees.map {f : List Char → Except JsonError (α × List Char)} (h : TakesTrees f)
    (g : α → β) : TakesTrees fun cs => do let (x, rest) ← f cs; return (g x, rest) := by
  intro cs b rest hread
  obtain ⟨⟨a, r⟩, ha, hread⟩ := exists_of_bind_ok hread
  obtain ⟨-, rfl⟩ := Prod.mk.inj (Except.ok.inj hread)
  exact h _ _ _ ha

/-! ## Lists -/

/-- What a list still holds: items with commas between them, and its end. -/
def ListRest (first : Bool) (cs rest : List Char) : Prop :=
  ∃ (gap : Blanks) (its : List (Item Tree)),
    cs = gap.chars ++ (joined first (its.map Item.chars) ++ ']' :: rest)

/-- A list ends where no item follows. -/
theorem ListRest.of_close {first : Bool} {cs rest : List Char} (h : closeList cs = .ok rest) :
    ListRest first cs rest := by
  obtain ⟨bs, hcs⟩ := Blanks.exists_eq cs
  rw [closeList] at h
  split at h
  · cases h
  -- Only at the closing bracket does it succeed; what stands there else is a fault.
  next c r hr =>
  split at h
  · next hc =>
    obtain rfl := Except.ok.inj h
    exact ⟨bs, [], by rw [hcs, hr, hc]; simp⟩
  · split at h
    · split at h
      · split at h <;> cases h
      · cases h
    · cases h

/-- A list goes on with an item. -/
theorem ListRest.of_item {first : Bool} {cs cs' rest rest' : List Char}
    (h : nextItem first cs = .ok (some cs')) {bs : Blanks} {w : Tree}
    (hitem : cs' = bs.chars ++ (w.chars ++ rest')) (hrest : ListRest false rest' rest) :
    ListRest first cs rest := by
  obtain ⟨gap, its, hrest⟩ := hrest
  obtain ⟨lead, hcs⟩ := Blanks.exists_eq cs
  -- The first item stands right behind the bracket; any other one comes after a comma.
  rw [nextItem] at h
  split at h
  · cases h
  next c r hr =>
  split at h
  · cases h
  split at h
  · next hfirst =>
    obtain rfl := Option.some.inj (Except.ok.inj h)
    refine ⟨lead, ⟨bs, w, gap⟩ :: its, ?_⟩
    rw [hcs, hr, hitem, hrest, hfirst]
    simp [joined, Item.chars]
  · next hfirst =>
    split at h
    · next hc =>
      obtain ⟨lead', hr'⟩ := Blanks.exists_eq r
      split at h
      · cases h
      next c' r' hc' =>
      split at h
      · cases h
      · obtain rfl := Option.some.inj (Except.ok.inj h)
        refine ⟨lead, ⟨lead'.append bs, w, gap⟩ :: its, ?_⟩
        rw [hcs, hr, hr', hc', hitem, hrest, hc, Bool.eq_false_of_not_eq_true hfirst]
        simp [joined, Item.chars, Blanks.append]
    · cases h

theorem listRest_of_items {item : List Char → Except JsonError (α × List Char)}
    (hitem : TakesTrees item) {fuel : Nat} {acc xs : List α} {cs rest : List Char}
    (h : items item fuel acc cs = .ok (xs, rest)) : ListRest acc.isEmpty cs rest := by
  induction fuel generalizing acc cs with
  | zero => cases h
  | succ fuel ih =>
    rw [items] at h
    split at h
    · cases h
    · split at h
      · next r hclose =>
        obtain ⟨-, rfl⟩ := Prod.mk.inj (Except.ok.inj h)
        exact .of_close hclose
      · cases h
    · next cs' hnext =>
      split at h
      · cases h
      · next v r hv =>
        obtain ⟨bs, w, hcs'⟩ := hitem _ _ _ hv
        exact .of_item hnext hcs' (ih h)

theorem ListRest.exists_tree {cs r rest : List Char} (hcs : skipBlanks cs = '[' :: r)
    (h : ListRest true r rest) : ∃ (bs : Blanks) (w : Tree), cs = bs.chars ++ (w.chars ++ rest) := by
  obtain ⟨bs, hbs⟩ := Blanks.exists_eq cs
  obtain ⟨gap, its, rfl⟩ := h
  exact ⟨bs, .list gap its, by rw [hbs, hcs, Tree.chars_list]; simp⟩

theorem TakesTrees.list {item : Decoder α} (h : ∀ depth, TakesTrees (item depth)) (depth : Nat) :
    TakesTrees (list item depth) := by
  intro cs xs rest hread
  rw [Decoder.list] at hread
  split at hread
  · cases hread
  next c r hr =>
  split at hread
  · next hc =>
    split at hread
    · cases hread
    · rw [hc] at hr
      exact (listRest_of_items (h _) hread).exists_tree hr
  · cases hread

/-! ## Objects -/

/-- What an object still holds: members with commas between them, and its end. -/
def ObjectRest (first : Bool) (cs rest : List Char) : Prop :=
  ∃ (gap : Blanks) (ms : List (Member Tree)),
    cs = gap.chars ++ (joined first (ms.map Member.chars) ++ '}' :: rest)

/-- An object ends where no member follows. -/
theorem ObjectRest.of_close {first : Bool} {cs rest : List Char} (h : closeObject cs = .ok rest) :
    ObjectRest first cs rest := by
  obtain ⟨bs, hcs⟩ := Blanks.exists_eq cs
  rw [closeObject] at h
  split at h
  · cases h
  next c r hr =>
  split at h
  · next hc =>
    obtain rfl := Except.ok.inj h
    exact ⟨bs, [], by rw [hcs, hr, hc]; simp⟩
  · split at h <;> cases h

/-- The name of a member is followed by a colon. -/
theorem exists_of_colon {cs rest : List Char} (h : colon cs = .ok rest) :
    ∃ gap : Blanks, cs = gap.chars ++ ':' :: rest := by
  obtain ⟨gap, hcs⟩ := Blanks.exists_eq cs
  rw [colon] at h
  split at h
  · cases h
  next c r hr =>
  split at h
  · next hc =>
    obtain rfl := Except.ok.inj h
    exact ⟨gap, by rw [hcs, hr, hc]⟩
  · cases h

/-- An object goes on with a member. -/
theorem ObjectRest.of_member {first : Bool} {cs cs' r r' rest rest' : List Char} {name : String}
    (h : nextName first cs = .ok (some cs')) (hname : Json.string cs' = .ok (name, r))
    (hcolon : colon r = .ok r') {bs : Blanks} {w : Tree} (hvalue : r' = bs.chars ++ (w.chars ++ rest'))
    (hrest : ObjectRest false rest' rest) : ObjectRest first cs rest := by
  obtain ⟨after, ms, hrest⟩ := hrest
  obtain ⟨lead, hcs⟩ := Blanks.exists_eq cs
  obtain ⟨t, ht, htext⟩ := stringText_of_string hname
  obtain ⟨gap, hr⟩ := exists_of_colon hcolon
  -- The first name stands right behind the brace; any other one comes after a comma.
  rw [nextName] at h
  split at h
  · cases h
  next c rn hrn =>
  split at h
  · cases h
  split at h
  · next hfirst =>
    split at h
    · next hc =>
      obtain rfl := Option.some.inj (Except.ok.inj h)
      refine ⟨.none, ⟨⟨bs, w, after⟩, ⟨lead, t, htext, gap⟩⟩ :: ms, ?_⟩
      rw [hcs, hrn, ht, hr, hvalue, hrest, hfirst, hc]
      simp [joined, Member.chars, Key.chars, Item.chars, Blanks.none]
    · cases h
  · next hfirst =>
    split at h
    · next hc =>
      obtain ⟨lead', hrn'⟩ := Blanks.exists_eq rn
      split at h
      · cases h
      next c' rn' hc' =>
      split at h
      · next hquote =>
        obtain rfl := Option.some.inj (Except.ok.inj h)
        refine ⟨lead, ⟨⟨bs, w, after⟩, ⟨lead', t, htext, gap⟩⟩ :: ms, ?_⟩
        rw [hcs, hrn, hrn', hc', ht, hr, hvalue, hrest, hc, hquote,
          Bool.eq_false_of_not_eq_true hfirst]
        simp [joined, Member.chars, Key.chars, Item.chars]
      · split at h <;> cases h
    · cases h

theorem ObjectRest.exists_tree {cs r rest : List Char} (hcs : skipBlanks cs = '{' :: r)
    (h : ObjectRest true r rest) :
    ∃ (bs : Blanks) (w : Tree), cs = bs.chars ++ (w.chars ++ rest) := by
  obtain ⟨bs, hbs⟩ := Blanks.exists_eq cs
  obtain ⟨gap, ms, rfl⟩ := h
  exact ⟨bs, .object gap ms, by rw [hbs, hcs, Tree.chars_object]; simp⟩

theorem objectRest_of_members {value : List Char → Except JsonError (α × List Char)}
    (hvalue : TakesTrees value) {fuel : Nat} {acc ms : List (String × α)} {cs rest : List Char}
    (h : members value fuel acc cs = .ok (ms, rest)) : ObjectRest acc.isEmpty cs rest := by
  induction fuel generalizing acc cs with
  | zero => cases h
  | succ fuel ih =>
    rw [members] at h
    split at h
    · cases h
    · split at h
      · next r hclose =>
        obtain ⟨-, rfl⟩ := Prod.mk.inj (Except.ok.inj h)
        exact .of_close hclose
      · cases h
    · next cs' hnext =>
      split at h
      · cases h
      · next m r hm =>
        -- A member is a name, a colon and a value, and its text is made of theirs.
        obtain ⟨⟨name, r₁⟩, hname, hm⟩ := exists_of_bind_ok hm
        obtain ⟨r₂, hcolon, hm⟩ := exists_of_bind_ok hm
        obtain ⟨⟨v, r₃⟩, hv, hm⟩ := exists_of_bind_ok hm
        obtain ⟨-, rfl⟩ := Prod.mk.inj (Except.ok.inj hm)
        obtain ⟨bs, w, hr₂⟩ := hvalue _ _ _ hv
        exact .of_member hnext hname hcolon hr₂ (ih h)

theorem TakesTrees.object {value : Decoder α} (h : ∀ depth, TakesTrees (value depth))
    (depth : Nat) : TakesTrees (object value depth) := by
  intro cs xs rest hread
  rw [Decoder.object] at hread
  split at hread
  · cases hread
  next c r hr =>
  split at hread
  · next hc =>
    split at hread
    · cases hread
    · rw [hc] at hr
      exact (objectRest_of_members (h _) hread).exists_tree hr
  · cases hread

/-! ## Records -/

section Records

variable {r : Record σ α} {depth : Nat}

theorem objectRest_of_record (h : ∀ f ∈ r.fields, ∀ s, TakesTrees (f.read s depth)) {fuel : Nat}
    {first : Bool} {s s' : σ} {cs rest : List Char}
    (hread : r.members depth fuel first s cs = .ok (s', rest)) : ObjectRest first cs rest := by
  induction fuel generalizing first s cs with
  | zero => cases hread
  | succ fuel ih =>
    rw [Record.members] at hread
    split at hread
    · cases hread
    · split at hread
      · next r hclose =>
        obtain ⟨-, rfl⟩ := Prod.mk.inj (Except.ok.inj hread)
        exact .of_close hclose
      · cases hread
    · next cs' hnext =>
      split at hread
      · cases hread
      · next s₁ r₁ hs₁ =>
        obtain ⟨⟨name, r₂⟩, hname, hs₁⟩ := exists_of_bind_ok hs₁
        have hs₁ : r.member depth name s r₂ = .ok (s₁, r₁) := hs₁
        rw [Record.member] at hs₁
        split at hs₁
        · next f hf =>
          split at hs₁
          · cases hs₁
          · obtain ⟨r₃, hcolon, hs₁⟩ := exists_of_bind_ok hs₁
            obtain ⟨bs, w, hr₃⟩ := h f (List.mem_of_find?_eq_some hf) s _ _ _ hs₁
            exact .of_member hnext hname hcolon hr₃ (ih hread)
        · -- A value that is passed over is skipped.
          obtain ⟨r₃, hcolon, hs₁⟩ := exists_of_bind_ok hs₁
          obtain ⟨r₄, hskip, hs₁⟩ := exists_of_bind_ok hs₁
          obtain ⟨-, rfl⟩ := Prod.mk.inj (Except.ok.inj hs₁)
          obtain ⟨bs, w, hr₃⟩ := exists_tree_of_skipValue hskip
          exact .of_member hnext hname hcolon hr₃ (ih hread)

theorem listRest_of_listed {fs : List (Field σ)}
    (h : ∀ f ∈ fs, ∀ s, TakesTrees (f.read s depth)) {index : Nat} {s s' : σ}
    {cs rest : List Char} (hread : r.listed depth fs index s cs = .ok (s', rest)) :
    ListRest (index == 0) cs rest := by
  induction fs generalizing index s cs with
  | nil =>
    rw [listed_nil] at hread
    obtain ⟨r, hclose, hread⟩ := exists_of_bind_ok hread
    obtain ⟨-, rfl⟩ := Prod.mk.inj (Except.ok.inj hread)
    exact .of_close hclose
  | cons f fs ih =>
    have h := List.forall_mem_cons.1 h
    rw [listed_cons] at hread
    split at hread
    · cases hread
    · split at hread
      · cases hread
      · exact ih h.2 hread
    · next cs' hnext =>
      -- A field of the record takes one item, whatever it reads from it.
      obtain ⟨⟨s₁, r₁⟩, hs₁, hread⟩ := exists_of_bind_ok hread
      obtain ⟨bs, w, hcs'⟩ := h.1 s _ _ _ hs₁
      exact .of_item hnext hcs' (ih h.2 hread)

end Records

theorem Field.Puts.takesTrees {f : Field σ} {decoder : Decoder β} {put : σ → β → σ}
    (h : f.Puts decoder put) (htrees : ∀ depth, TakesTrees (decoder depth)) (s : σ) (depth : Nat) :
    TakesTrees (f.read s depth) := by
  rw [h.read_eq]
  exact (htrees depth).map (put s)

theorem TakesTrees.record {r : Record σ α} (h : ∀ f ∈ r.fields, ∀ s depth, TakesTrees (f.read s depth))
    (depth : Nat) : TakesTrees (r.decoder depth) := by
  intro cs a rest hread
  -- A record is read from an object, or from a list of its fields.
  rw [Record.decoder] at hread
  split at hread
  · cases hread
  next c cs' hcs' =>
  split at hread
  · next hc =>
    split at hread
    · cases hread
    · next depth =>
      obtain ⟨⟨s, r₁⟩, hs, hread⟩ := exists_of_bind_ok hread
      obtain ⟨a', -, hread⟩ := exists_of_bind_ok hread
      obtain ⟨-, rfl⟩ := Prod.mk.inj (Except.ok.inj hread)
      rw [hc] at hcs'
      exact (objectRest_of_record (fun f hf s => h f hf s depth) hs).exists_tree hcs'
  split at hread
  · next hc =>
    split at hread
    · cases hread
    · next depth =>
      obtain ⟨⟨s, r₁⟩, hs, hread⟩ := exists_of_bind_ok hread
      obtain ⟨a', -, hread⟩ := exists_of_bind_ok hread
      obtain ⟨r₂, hclose, hread⟩ := exists_of_bind_ok hread
      obtain ⟨-, rfl⟩ := Prod.mk.inj (Except.ok.inj hread)
      have hlisted : r.listed depth r.fields 0 r.start cs' = .ok (s, r₂) := by
        simp [Record.listed, hs, hclose]
      rw [hc] at hcs'
      exact (listRest_of_listed (fun f hf s => h f hf s depth) hlisted).exists_tree hcs'
  · cases hread

/-! ## Values of any type -/

/-- The one member of an object that stands for an embedded text. -/
theorem objectRest_of_embedded {cs r r₁ r₂ rest : List Char} (h : embedded? cs = some r)
    (hcolon : colon r = .ok r₁) {bs : Blanks} {w : Tree} (hvalue : r₁ = bs.chars ++ (w.chars ++ r₂))
    (hclose : closeObject r₂ = .ok rest) : ObjectRest true cs rest := by
  rw [embedded?] at h
  split at h
  · next cs' hnext =>
    split at h
    · next name r' hname =>
      split at h
      · obtain rfl := Option.some.inj h
        exact .of_member hnext hname hcolon hvalue (.of_close hclose)
      · cases h
    · cases h
  · cases h

/-- Every value that is no container is read from a scalar. -/
theorem exists_scalar_of_valueWith {embedded : Option (String → Except JsonError Json)} {depth : Nat}
    {c : Char} {cs rest : List Char} {v : Json} (hlist : c ≠ '[') (hobject : c ≠ '{')
    (hblank : isBlank c = false)
    (h : valueWith embedded depth (c :: cs) = .ok (v, rest)) :
    ∃ t, c :: cs = t ++ rest ∧ ScalarText t := by
  -- The first character decides what is read; the two that open a list or an object are excluded.
  rw [valueWith.eq_def, skipBlanks_cons, hblank] at h
  simp only [Bool.false_eq_true, if_false] at h
  split at h
  · next hc =>
    obtain ⟨r, hr, h⟩ := exists_of_bind_ok h
    obtain ⟨-, rfl⟩ := Prod.mk.inj (Except.ok.inj h)
    exact ⟨_, by rw [hc, eq_of_literal hr]; rfl, .null⟩
  split at h
  · next hc =>
    obtain ⟨r, hr, h⟩ := exists_of_bind_ok h
    obtain ⟨-, rfl⟩ := Prod.mk.inj (Except.ok.inj h)
    exact ⟨_, by rw [hc, eq_of_literal hr]; rfl, .true⟩
  split at h
  · next hc =>
    obtain ⟨r, hr, h⟩ := exists_of_bind_ok h
    obtain ⟨-, rfl⟩ := Prod.mk.inj (Except.ok.inj h)
    exact ⟨_, by rw [hc, eq_of_literal hr]; rfl, .false⟩
  split at h
  · obtain ⟨⟨n, r⟩, hn, h⟩ := exists_of_bind_ok h
    obtain ⟨-, rfl⟩ := Prod.mk.inj (Except.ok.inj h)
    obtain ⟨t, ht, htext⟩ := numberText_of_number hn
    exact ⟨t, ht, .number htext⟩
  split at h
  · next hc =>
    obtain ⟨⟨s, r⟩, hs, h⟩ := exists_of_bind_ok h
    obtain ⟨-, rfl⟩ := Prod.mk.inj (Except.ok.inj h)
    obtain ⟨t, rfl, ht⟩ := stringText_of_string hs
    exact ⟨'"' :: t, by rw [hc]; rfl, .string ht⟩
  cases h

theorem takesTrees_valueWith (embedded : Option (String → Except JsonError Json)) (depth : Nat) :
    TakesTrees (valueWith embedded depth) := by
  induction depth using Nat.strongRecOn with
  | ind depth ih =>
    intro cs v rest hread
    obtain ⟨bs, hcs⟩ := Blanks.exists_eq cs
    have hread : valueWith embedded depth (skipBlanks cs) = .ok (v, rest) := by
      rw [← hread, ← valueWith_blanks bs, ← hcs]
    cases hskip : skipBlanks cs with
    | nil =>
      rw [hskip, valueWith.eq_def] at hread
      cases hread
    | cons c r =>
    have hblank := isBlank_of_skipBlanks hskip
    rw [hskip] at hread
    by_cases hlist : c = '['
    · subst hlist
      cases depth with
      | zero => rw [valueWith_zero (.inl rfl)] at hread; cases hread
      | succ depth =>
        rw [valueWith_list] at hread
        obtain ⟨⟨vs, r'⟩, hvs, hread⟩ := exists_of_bind_ok hread
        obtain ⟨-, rfl⟩ := Prod.mk.inj (Except.ok.inj hread)
        exact (listRest_of_items (ih depth (Nat.lt_succ_self depth)) hvs).exists_tree hskip
    by_cases hobject : c = '{'
    · subst hobject
      cases depth with
      | zero => rw [valueWith_zero (.inr rfl)] at hread; cases hread
      | succ depth =>
        -- The object is read as it is written, or announces an embedded text.
        by_cases hplain : embedded.isSome = true → embedded? r = none
        · rw [valueWith_object hplain] at hread
          obtain ⟨⟨ms, r'⟩, hms, hread⟩ := exists_of_bind_ok hread
          obtain ⟨-, rfl⟩ := Prod.mk.inj (Except.ok.inj hread)
          exact (objectRest_of_members (ih depth (Nat.lt_succ_self depth)) hms).exists_tree hskip
        · simp only [Classical.not_imp] at hplain
          obtain ⟨hsome, hembedded⟩ := hplain
          obtain ⟨value, rfl⟩ := Option.isSome_iff_exists.1 hsome
          obtain ⟨r₀, hembedded⟩ := Option.ne_none_iff_exists'.1 hembedded
          rw [valueWith_embedded hembedded] at hread
          obtain ⟨r₁, hcolon, hread⟩ := exists_of_bind_ok hread
          obtain ⟨⟨s, r₂⟩, hs, hread⟩ := exists_of_bind_ok hread
          obtain ⟨w, -, hread⟩ := exists_of_bind_ok hread
          obtain ⟨r₃, hclose, hread⟩ := exists_of_bind_ok hread
          obtain ⟨-, rfl⟩ := Prod.mk.inj (Except.ok.inj hread)
          obtain ⟨bs', w', hr₁⟩ := takesTrees_text _ _ _ _ _ hs
          exact (objectRest_of_embedded hembedded hcolon hr₁ hclose).exists_tree hskip
    · obtain ⟨t, ht, htext⟩ := exists_scalar_of_valueWith hlist hobject hblank hread
      exact ⟨bs, .scalar t htext, by rw [hcs, hskip, ht]; rfl⟩

/-! ## Whole texts -/

/-- A text in which something is read is that of a tree between blanks. -/
theorem TakesTrees.exists_tree {decoder : Decoder α} (h : TakesTrees (decoder maxDepth)) {s : String}
    {a : α} (hrun : run decoder s = .ok a) :
    ∃ (before : Blanks) (w : Tree) (after : Blanks),
      s = String.ofList (before.chars ++ (w.chars ++ after.chars)) := by
  obtain ⟨⟨a', r⟩, hread, hrun⟩ := exists_of_bind_ok hrun
  obtain ⟨before, w, hs⟩ := h _ _ _ hread
  obtain ⟨after, hafter⟩ := Blanks.exists_eq r
  simp only at hrun
  split at hrun
  · next hr =>
    rw [hr, List.append_nil] at hafter
    exact ⟨before, w, after, by rw [← hafter, ← hs, String.ofList_toList]⟩
  · cases hrun

end Decoder

end BlockFlow
