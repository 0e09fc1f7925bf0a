import BlockFlow.Proofs.Json.Records
import BlockFlow.Proofs.Lookup

/-!
# The fields of a record that was read

What a record holds in a place was read from one of its values: the last member of the name, if the
record is written as an object, or the item at the index of the field (`Record.Holds.of_read`).
Likewise what an object has under a name was read from the last member of that name
(`get?_of_read`).

## Key results

- `Record.Holds.of_read`: what a record holds in a place
- `get?_of_read`: what an object has under a name
-/

namespace BlockFlow

namespace Json

/-- The value of the last member of this name. -/
def named? (name : String) : List (Option String × Tree) → Option Tree
  | [] => none
  | (k, v) :: es => (named? name es).or (if k = some name then some v else none)

theorem named?_concat (name : String) (es : List (Option String × Tree))
    (e : Option String × Tree) :
    named? name (es ++ [e]) = if e.1 = some name then some e.2 else named? name es := by
  induction es with
  | nil => simp [named?]
  | cons e' es ih =>
    rw [List.cons_append, named?, named?, ih]
    split <;> simp

theorem exists_of_named? {name : String} {es : List (Option String × Tree)} {v : Tree}
    (h : named? name es = some v) : ∃ e ∈ es, e.2 = v := by
  induction es with
  | nil => cases h
  | cons e es ih =>
    rw [named?] at h
    -- The last of the members with the name counts.
    cases htail : named? name es with
    | some v' =>
      rw [htail] at h
      obtain ⟨e', he', rfl⟩ := ih (htail.trans h)
      exact ⟨e', List.mem_cons_of_mem _ he', rfl⟩
    | none =>
      rw [htail, Option.none_or] at h
      split at h
      · exact ⟨e, List.mem_cons_self, Option.some.inj h⟩
      · cases h

/-- The value under a name of an object. -/
def Tree.member? (name : String) : Tree → Option Tree
  | .object _ ms => named? name (ms.map Member.entry)
  | .list _ _ => none
  | .scalar _ _ => none

/-- The value of a field of a record: the member of its name, or the item at its index. -/
def Tree.field? (name : String) (index : Nat) : Tree → Option Tree
  | .object _ ms => named? name (ms.map Member.entry)
  | .list _ its => (its.map Item.value)[index]?
  | .scalar _ _ => none

/-! ## The texts of parts -/

theorem infix_joined {t : List Char} {ts : List (List Char)} (h : t ∈ ts) (first : Bool) :
    t <:+: joined first ts := by
  induction ts generalizing first with
  | nil => cases h
  | cons t' ts ih =>
    rcases List.mem_cons.1 h with rfl | h
    · cases first with
      | true => exact ⟨[], joined false ts, rfl⟩
      | false => exact ⟨[','], joined false ts, rfl⟩
    · obtain ⟨before, after, heq⟩ := ih h false
      cases first with
      | true => exact ⟨t' ++ before, after, by simp [joined, ← heq]⟩
      | false => exact ⟨',' :: (t' ++ before), after, by simp [joined, ← heq]⟩

/-- The text of the value of an item is part of that of its list. -/
theorem Tree.infix_list (gap : Blanks) {its : List (Item Tree)} {i : Item Tree} (h : i ∈ its) :
    i.value.chars <:+: (Tree.list gap its).chars := by
  obtain ⟨before, after, heq⟩ := infix_joined (List.mem_map_of_mem (f := Item.chars) h) true
  refine ⟨'[' :: (gap.chars ++ (before ++ i.before.chars)), i.after.chars ++ (after ++ [']']), ?_⟩
  rw [Tree.chars_list, ← heq]
  simp [Item.chars]

/-- The text of the value of a member is part of that of its object. -/
theorem Tree.infix_object (gap : Blanks) {ms : List (Member Tree)} {m : Member Tree} (h : m ∈ ms) :
    m.value.chars <:+: (Tree.object gap ms).chars := by
  obtain ⟨before, after, heq⟩ := infix_joined (List.mem_map_of_mem (f := Member.chars) h) true
  refine ⟨'{' :: (gap.chars ++ (before ++ (m.key.chars ++ m.before.chars))),
    m.after.chars ++ (after ++ ['}']), ?_⟩
  rw [Tree.chars_object, ← heq]
  simp [Member.chars, Item.chars]

theorem infix_of_named? (gap : Blanks) {name : String} {ms : List (Member Tree)} {v : Tree}
    (h : named? name (ms.map Member.entry) = some v) :
    v.chars <:+: (Tree.object gap ms).chars := by
  obtain ⟨e, he, rfl⟩ := exists_of_named? h
  obtain ⟨m, hm, rfl⟩ := List.mem_map.1 he
  exact Tree.infix_object gap hm

theorem Tree.infix_of_member? {w v : Tree} {name : String} (h : w.member? name = some v) :
    v.chars <:+: w.chars := by
  cases w with
  | scalar | list => cases h
  | object gap ms => exact infix_of_named? gap h

theorem Tree.infix_of_field? {w v : Tree} {name : String} {index : Nat}
    (h : w.field? name index = some v) : v.chars <:+: w.chars := by
  cases w with
  | scalar => cases h
  | list gap its =>
    obtain ⟨i, hi, rfl⟩ := List.mem_map.1 (List.mem_of_getElem? h)
    exact Tree.infix_list gap hi
  | object gap ms => exact infix_of_named? gap h

end Json

namespace Decoder

open Json

variable {σ α β : Type} {r : Record σ α} {depth : Nat}

/-- A place of a partial record that is filled from the values of one field. -/
structure Record.Holds (r : Record σ α) (name : String) (index : Nat) (get : σ → Option β)
    (value : Nat → Tree → Option β) : Prop where
  start : get r.start = none
  names : (r.fields.map (·.name)).Nodup
  named : (r.fields.map (·.name))[index]? = some name
  read : ∀ f ∈ r.fields, f.name = name → ∀ s s' depth (v : Tree),
    v.read (f.read s) depth = some s' → ∃ b, value depth v = some b ∧ get s' = some b
  others : ∀ f ∈ r.fields, f.name ≠ name → ∀ s s' depth (v : Tree),
    v.read (f.read s) depth = some s' → get s' = get s

/-- A field that is put into another place leaves this one alone. -/
theorem Field.Puts.keeps {γ : Type} {f : Field σ} {decoder : Decoder γ} {put : σ → γ → σ}
    (h : f.Puts decoder put) {get : σ → Option β} (hget : ∀ s x, get (put s x) = get s) {s s' : σ}
    {v : Tree} (hread : v.read (f.read s) depth = some s') : get s' = get s := by
  rw [h.tree_read] at hread
  obtain ⟨x, -, rfl⟩ := Option.map_eq_some_iff.1 hread
  exact hget s x

/-- What a place holds after some values, of which this one, if any, was read into it last. -/
def Took (value : Tree → Option β) (v : Option Tree) (before after : Option β) : Prop :=
  match v with
  | none => after = before
  | some v => ∃ b, value v = some b ∧ after = some b

namespace Record.Holds

variable {name : String} {index : Nat} {get : σ → Option β} {value : Nat → Tree → Option β}

/-- What a place holds after a member. -/
theorem step (h : r.Holds name index get value) {s s' : σ} {e : Option String × Tree}
    (hstep : r.step depth s e = some s') :
    Took (value depth) (if e.1 = some name then some e.2 else none) (get s) (get s') := by
  rw [Record.step, Option.bind_eq_some_iff] at hstep
  obtain ⟨name', hname', hstep⟩ := hstep
  rw [hname']
  cases hf : r.fields.find? (fun f => f.name = name') with
  | none =>
    rw [hf] at hstep
    obtain rfl := Option.some.inj hstep
    -- A member that is passed over has no field's name.
    have hne : name' ≠ name := by
      rintro rfl
      obtain ⟨f, hmem, hfname⟩ := List.mem_map.1 (List.mem_of_getElem? h.named)
      exact absurd (List.find?_eq_none.1 hf f hmem) (by simpa using hfname)
    simp [hne, Took]
  | some f =>
    rw [hf] at hstep
    have hmem := List.mem_of_find?_eq_some hf
    have hfname : f.name = name' := by simpa using List.find?_some hf
    simp only at hstep
    split at hstep
    · cases hstep
    · by_cases heq : name' = name
      · rw [if_pos (by rw [heq])]
        exact h.read f hmem (hfname.trans heq) _ _ _ _ hstep
      · rw [if_neg (by simpa using heq)]
        exact h.others f hmem (by rwa [hfname]) _ _ _ _ hstep

/-- What a place holds after all members. -/
theorem of_foldlM (h : r.Holds name index get value) {es : List (Option String × Tree)} {s s' : σ}
    (hfold : es.foldlM (r.step depth) s = some s') :
    Took (value depth) (named? name es) (get s) (get s') := by
  -- From the end, as the last member with the name decides.
  induction es using List.reverseRecOn generalizing s' with
  | nil =>
    obtain rfl := Option.some.inj hfold
    rfl
  | append_singleton es e ih =>
    rw [List.foldlM_append] at hfold
    obtain ⟨s₁, hs₁, hfold⟩ := Option.bind_eq_some_iff.1 hfold
    have hstep : r.step depth s₁ e = some s' := by simpa using hfold
    have hlast := h.step hstep
    have hbefore := ih hs₁
    rw [named?_concat]
    by_cases hname : e.1 = some name
    · rw [if_pos hname] at hlast ⊢
      exact hlast
    · rw [if_neg hname] at hlast ⊢
      have hlast : get s' = get s₁ := hlast
      rwa [hlast]

/-- Fields that are left out change nothing. -/
theorem eq_of_fill_nil {fs : List (Field σ)} {s s' : σ}
    (hfill : Record.fill depth fs [] s = some s') : s' = s := by
  induction fs with
  | nil => exact (Option.some.inj hfill).symm
  | cons f fs ih =>
    rw [Record.fill] at hfill
    split at hfill
    · cases hfill
    · exact ih hfill

/-- Fields of other names leave a place alone. -/
theorem of_fill_others (h : r.Holds name index get value) {fs : List (Field σ)} {vs : List Tree}
    {s s' : σ} (hfs : ∀ f ∈ fs, f ∈ r.fields) (hname : name ∉ fs.map (·.name))
    (hfill : Record.fill depth fs vs s = some s') : get s' = get s := by
  induction fs generalizing vs s with
  | nil =>
    cases vs with
    | nil => rw [eq_of_fill_nil hfill]
    | cons v vs => cases hfill
  | cons f fs ih =>
    have hfs := List.forall_mem_cons.1 hfs
    rw [List.map_cons, List.mem_cons, not_or] at hname
    cases vs with
    | nil => rw [eq_of_fill_nil hfill]
    | cons v vs =>
      rw [Record.fill, Option.bind_eq_some_iff] at hfill
      obtain ⟨s₁, hs₁, hfill⟩ := hfill
      -- Neither this field nor one behind it has the name, so none of them touches the value.
      rw [ih hfs.2 hname.2 hfill, h.others f hfs.1 (Ne.symm hname.1) _ _ _ _ hs₁]

/-- What a place holds after the fields that are left, if its own is among them. -/
theorem of_fill (h : r.Holds name index get value) {fs : List (Field σ)} {vs : List Tree} {s s' : σ}
    (hfs : ∀ f ∈ fs, f ∈ r.fields) (hnames : (fs.map (·.name)).Nodup) {i : Nat}
    (hi : (fs.map (·.name))[i]? = some name) (hfill : Record.fill depth fs vs s = some s') :
    Took (value depth) vs[i]? (get s) (get s') := by
  induction fs generalizing vs s i with
  | nil => simp at hi
  | cons f fs ih =>
    have hfs := List.forall_mem_cons.1 hfs
    rw [List.map_cons, List.nodup_cons] at hnames
    cases vs with
    | nil => exact congrArg get (eq_of_fill_nil hfill)
    | cons v vs =>
      rw [Record.fill, Option.bind_eq_some_iff] at hfill
      obtain ⟨s₁, hs₁, hfill⟩ := hfill
      -- Once the field has been filled, the later ones leave it as it is; before that, the others
      -- do.
      cases i with
      | zero =>
        have hname : f.name = name := Option.some.inj hi
        rw [hname] at hnames
        obtain ⟨b, hb, hget⟩ := h.read f hfs.1 hname _ _ _ _ hs₁
        exact ⟨b, hb, (h.of_fill_others hfs.2 hnames.1 hfill).trans hget⟩
      | succ i =>
        have hne : f.name ≠ name := by
          rintro rfl
          exact hnames.1 (List.mem_of_getElem? hi)
        have hrest : Took (value depth) vs[i]? (get s₁) (get s') :=
          ih hfs.2 hnames.2 hi hfill
        rw [h.others f hfs.1 hne _ _ _ _ hs₁] at hrest
        exact hrest

/-- What a record holds in a place when it has been read. -/
theorem of_read (h : r.Holds name index get value) (hr : r.Judged) {w : Tree} {a : α}
    (hread : w.read r.decoder (depth + 1) = some a) :
    ∃ s, r.finish s = .ok a ∧ Took (value depth) (w.field? name index) none (get s) := by
  cases w with
  | scalar t ht =>
    rw [(yields_record_none (.inr ⟨t, ht, rfl⟩)).read_eq] at hread
    cases hread
  | list gap its =>
    rw [(yields_record_list hr gap its).read_eq, Option.bind_eq_some_iff] at hread
    obtain ⟨s, hs, hfinish⟩ := hread
    have hplace := h.of_fill (fun _ hf => hf) h.names h.named hs
    rw [h.start] at hplace
    exact ⟨s, toOption_eq_some_iff.1 hfinish, hplace⟩
  | object gap ms =>
    rw [(yields_record_object hr gap ms).read_eq, Option.bind_eq_some_iff] at hread
    obtain ⟨s, hs, hfinish⟩ := hread
    have hplace := h.of_foldlM hs
    rw [h.start] at hplace
    exact ⟨s, toOption_eq_some_iff.1 hfinish, hplace⟩

end Record.Holds

/-! ## Objects -/

/-- What is read under a name was read from the last member of that name. -/
theorem get?_of_entries {decoder : Decoder β} {es : List (Option String × Tree)}
    {bs : List (String × β)} (h : es.mapM (readEntry decoder depth) = some bs) {name : String}
    {b : β} (hb : (SortedMap.ofList bs).get? name = some b) :
    ∃ v, named? name es = some v ∧ v.read decoder depth = some b := by
  induction es using List.reverseRecOn generalizing bs with
  | nil =>
    obtain rfl := Option.some.inj h
    cases hb
  | append_singleton es e ih =>
    rw [List.mapM_append] at h
    obtain ⟨bs₁, hbs₁, h⟩ := Option.bind_eq_some_iff.1 h
    obtain ⟨bs₂, hlast, h⟩ := Option.bind_eq_some_iff.1 h
    obtain rfl := Option.some.inj h
    -- The last binding is that of the last member.
    obtain ⟨name', v, hname', hv, rfl⟩ : ∃ name' b', e.1 = some name' ∧
        e.2.read decoder depth = some b' ∧ bs₂ = [(name', b')] := by
      rw [List.mapM_cons] at hlast
      obtain ⟨p, hp, hlast⟩ := Option.bind_eq_some_iff.1 hlast
      obtain rfl : [p] = bs₂ := Option.some.inj hlast
      obtain ⟨name', hname', hp⟩ := Option.bind_eq_some_iff.1 hp
      obtain ⟨b', hb', rfl⟩ := Option.map_eq_some_iff.1 hp
      exact ⟨name', b', hname', hb', rfl⟩
    rw [SortedMap.ofList_concat, SortedMap.get?_insert] at hb
    rw [named?_concat, hname']
    by_cases heq : name' = name
    · rw [if_pos heq] at hb
      rw [if_pos (by rw [heq])]
      obtain rfl := Option.some.inj hb
      exact ⟨e.2, rfl, hv⟩
    · rw [if_neg heq] at hb
      rw [if_neg (by simpa using heq)]
      exact ih hbs₁ hb

theorem get?_of_read {decoder : Decoder β} (hlocal : Local decoder) {w : Tree}
    {bs : List (String × β)} (h : w.read (object decoder) (depth + 1) = some bs) {name : String}
    {b : β} (hb : (SortedMap.ofList bs).get? name = some b) :
    ∃ v, w.member? name = some v ∧ v.read decoder depth = some b := by
  cases w with
  | scalar t ht =>
    rw [(yields_object_none (.inr (by simp))).read_eq] at h
    cases h
  | list gap its =>
    rw [(yields_object_none (.inr (by simp))).read_eq] at h
    cases h
  | object gap ms =>
    rw [(yields_object (hlocal depth) gap ms).read_eq] at h
    exact get?_of_entries h hb

end Decoder

end BlockFlow
