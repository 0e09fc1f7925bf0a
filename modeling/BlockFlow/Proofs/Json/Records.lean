import Mathlib.Data.List.Pairwise
import BlockFlow.Proofs.Json.Readings

/-!
# What records make of trees

A record that is written as an object is read member by member (`yields_record_object`): a member
with the name of a field is read into that field, which may not have been read before, and any other
is passed over. A record that is written as a list has its fields in order
(`yields_record_list`).

## Key results

- `local_record`: a record judges values by themselves, if its fields do
- `foldlM_perm`: the order of the members of a record does not matter
-/

namespace BlockFlow

namespace Decoder

open Json

variable {σ α : Type} {r : Record σ α} {depth : Nat}

/-- What a partial record becomes with one more member, if it is read. -/
def Record.step (r : Record σ α) (depth : Nat) (s : σ) (e : Option String × Tree) : Option σ :=
  e.1.bind fun name =>
    match r.fields.find? (fun f => f.name = name) with
    | some f => if f.isSet s then none else e.2.read (f.read s) depth
    | none => some s

/-- What a partial record becomes with the values of its fields in order, if they are read. -/
def Record.fill (depth : Nat) : List (Field σ) → List Tree → σ → Option σ
  | [], [], s => some s
  | [], _ :: _, _ => none
  | f :: fs, [], s => if f.required then none else Record.fill depth fs [] s
  | f :: fs, v :: vs, s => (v.read (f.read s) depth).bind (Record.fill depth fs vs)

/-- A record whose fields judge values by themselves. -/
def Record.Judged (r : Record σ α) : Prop := ∀ f ∈ r.fields, ∀ s, Local (f.read s)

/-! ## Objects -/

variable (depth) in
theorem member_record (h : r.Judged) (s : σ) (m : Member Tree) {rest : List Char}
    (hrest : Stops (m.after.chars ++ rest)) :
    (do
      let (name, rest) ← Json.string (afterQuote m rest)
      r.member depth name s rest : Except JsonError (σ × List Char)).toOption =
      (r.step depth s m.entry).map (·, m.after.chars ++ rest) := by
  have hname := string_key m.key (m.before.chars ++ (m.value.chars ++ (m.after.chars ++ rest)))
  rw [Record.step, Member.entry, toOption_bind, afterQuote, hname]
  cases m.key.name? with
  | none => rfl
  | some name =>
    simp only [Option.map_some, Option.bind_some, Record.member]
    cases hf : r.fields.find? (fun f => f.name = name) with
    | none =>
      simp only [colon_key, ok_bind, m.value.skipValue m.before hrest]
      rfl
    | some f =>
      have hlocal := h f (List.mem_of_find?_eq_some hf) s depth
      simp only
      split
      · rfl
      · rw [colon_key, ok_bind, hlocal.blanks, hlocal.yields m.value _ hrest]
        rfl

theorem members_record_blanks (fuel : Nat) (first : Bool) (s : σ) (bs : Blanks) (cs : List Char) :
    r.members depth fuel first s (bs.chars ++ cs) = r.members depth fuel first s cs := by
  cases fuel with
  | zero => rfl
  | succ fuel => rw [Record.members, Record.members, nextName_blanks, closeObject_blanks]

variable (depth) in
theorem members_record (h : r.Judged) (ms : List (Member Tree)) {fuel : Nat}
    (hfuel : ms.length < fuel) (first : Bool) (s : σ) (rest : List Char) :
    (r.members depth fuel first s (joined first (ms.map Member.chars) ++ '}' :: rest)).toOption =
      ((ms.map Member.entry).foldlM (r.step depth) s).map (·, rest) := by
  induction ms generalizing fuel first s with
  | nil =>
    obtain ⟨fuel, rfl⟩ : ∃ n, fuel = n + 1 := ⟨fuel - 1, by simp at hfuel; omega⟩
    simp [Record.members, nextName, closeObject, skipBlanks_cons, isBlank]
  | cons m ms ih =>
    simp only [List.length_cons] at hfuel
    obtain ⟨fuel, rfl⟩ : ∃ n, fuel = n + 1 := ⟨fuel - 1, by omega⟩
    have hread := member_record depth h s m
      (stops_behind m.toItem (ms.map Member.chars) (.inr rfl) rest)
    rw [Record.members, List.map_cons, nextName_member, List.map_cons, List.foldlM_cons]
    simp only
    -- Either both fail at this member, or both take it and go on from the same state.
    split
    · next e he =>
      rw [he] at hread
      cases hm : r.step depth s m.entry with
      | none => rfl
      | some e => rw [hm] at hread; cases hread
    · next s' cs he =>
      rw [he] at hread
      cases hm : r.step depth s m.entry with
      | none => rw [hm] at hread; cases hread
      | some s'' =>
        rw [hm] at hread
        obtain ⟨rfl, rfl⟩ := Prod.mk.inj (Option.some.inj hread)
        have htail := ih (by omega : ms.length < fuel) false s'
        rw [members_record_blanks, htail]
        rfl

theorem decoder_object (cs : List Char) : r.decoder (depth + 1) ('{' :: cs) =
    do
      let (s, rest) ← r.members depth (cs.length + 1) true r.start cs
      return (← r.finish s, rest) := by
  simp [Record.decoder, skipBlanks_cons, isBlank]

theorem yields_record_object (h : r.Judged) (gap : Blanks) (ms : List (Member Tree)) :
    Yields (r.decoder (depth + 1)) (Tree.object gap ms).chars
      (((ms.map Member.entry).foldlM (r.step depth) r.start).bind
        fun s => (r.finish s).toOption) := by
  intro rest _
  have hread := members_record depth h ms
    (length_lt_texts ms Member.chars member_chars_ne_nil gap ('}' :: rest)) true r.start rest
  rw [← members_record_blanks _ _ _ gap] at hread
  simp only [Tree.chars_object, List.cons_append, List.append_assoc, List.nil_append,
    decoder_object, toOption_bind, hread]
  cases (ms.map Member.entry).foldlM (r.step depth) r.start with
  | none => rfl
  | some s => simp only [Option.map_some, Option.bind_some]; cases r.finish s <;> rfl

/-! ## Lists -/

/-- The fields of a record in order, up to the end of their list. -/
def Record.listed (r : Record σ α) (depth : Nat) (fs : List (Field σ)) (index : Nat) (s : σ)
    (cs : List Char) : Except JsonError (σ × List Char) := do
  let (s, cs) ← r.inOrder depth fs index s cs
  return (s, ← closeList cs)

theorem listed_nil (index : Nat) (s : σ) (cs : List Char) :
    r.listed depth [] index s cs = (closeList cs >>= fun cs => .ok (s, cs)) := rfl

/-- A list ends before a field, or the field is read. -/
theorem listed_cons (f : Field σ) (fs : List (Field σ)) (index : Nat) (s : σ) (cs : List Char) :
    r.listed depth (f :: fs) index s cs =
      match nextItem (index == 0) cs with
      | .error e => .error e
      | .ok none =>
        if f.required then .error (.invalidLength index r.lengthText)
        else r.listed depth fs index s cs
      | .ok (some cs) =>
        f.read s depth cs >>= fun p => r.listed depth fs (index + 1) p.1 p.2 := by
  rw [Record.listed, Record.inOrder]
  cases nextItem (index == 0) cs with
  | error e => rfl
  | ok next =>
    cases next with
    | none => simp only; split <;> rfl
    | some cs => simp only; cases f.read s depth cs <;> rfl

theorem listed_blanks (fs : List (Field σ)) (index : Nat) (s : σ) (bs : Blanks)
    (cs : List Char) :
    r.listed depth fs index s (bs.chars ++ cs) = r.listed depth fs index s cs := by
  induction fs with
  | nil => rw [listed_nil, listed_nil, closeList_blanks]
  | cons f fs ih => rw [listed_cons, listed_cons, nextItem_blanks, ih]

/-- A list does not end before a value, nor before a comma. -/
theorem closeList_item (first : Bool) (i : Item Tree) (ts : List (List Char)) (cs : List Char) :
    ∃ e, closeList (joined first (i.chars :: ts) ++ cs) = .error e := by
  -- Behind the blanks stands a comma or the item itself, never the bracket.
  obtain ⟨c, r, hskip, hclose⟩ : ∃ c r,
      skipBlanks (joined first (i.chars :: ts) ++ cs) = c :: r ∧ c ≠ ']' := by
    cases first with
    | false => exact ⟨',', _, rfl, by decide⟩
    | true =>
      obtain ⟨c, r, hc, hblank, hclose⟩ := i.value.fronted
      have hskip : skipBlanks (joined true (i.chars :: ts) ++ cs) =
          c :: (r ++ (i.after.chars ++ (joined false ts ++ cs))) := by
        simp [joined, Item.chars, i.before.skipBlanks, hc, skipBlanks_cons, hblank]
      exact ⟨c, _, hskip, hclose⟩
  rw [closeList, hskip]
  simp only [hclose, if_false]
  split
  · split
    · split <;> exact ⟨_, rfl⟩
    · exact ⟨_, rfl⟩
  · exact ⟨_, rfl⟩

variable (r depth) in
theorem listed_record {fs : List (Field σ)} (h : ∀ f ∈ fs, ∀ s, Local (f.read s)) (index : Nat)
    (s : σ) (its : List (Item Tree)) (rest : List Char) :
    (r.listed depth fs index s
      (joined (index == 0) (its.map Item.chars) ++ ']' :: rest)).toOption =
      (Record.fill depth fs (its.map Item.value) s).map (·, rest) := by
  induction fs generalizing index s its with
  | nil =>
    cases its with
    | nil => simp [listed_nil, Record.fill, closeList, skipBlanks_cons, isBlank]
    | cons i its =>
      -- A list that goes on does not end here, whether a comma or a value comes next.
      obtain ⟨e, he⟩ := closeList_item (index == 0) i (its.map Item.chars) (']' :: rest)
      rw [listed_nil, List.map_cons, he]
      rfl
  | cons f fs ih =>
    have h := List.forall_mem_cons.1 h
    cases its with
    | nil =>
      have hnext : nextItem (index == 0) (']' :: rest) = .ok none := rfl
      have htail := ih h.2 index s []
      rw [List.map_nil, joined_nil, List.nil_append] at htail ⊢
      rw [listed_cons, hnext, List.map_nil, Record.fill]
      simp only
      split
      · rfl
      · exact htail
    | cons i its =>
      have hread := (h.1 s depth).yields i.value _
        (stops_behind i (its.map Item.chars) (.inl rfl) rest)
      rw [List.map_cons, listed_cons, nextItem_item, List.map_cons, Record.fill]
      simp only [toOption_bind, hread, Tree.read]
      cases outcome (f.read s depth) i.value.chars with
      | none => rfl
      | some s' =>
        have htail := ih h.2 (index + 1) s' its
        simp only [Option.map_some, Option.bind_some, listed_blanks]
        exact htail

theorem decoder_list (cs : List Char) : r.decoder (depth + 1) ('[' :: cs) =
    do
      let (s, rest) ← r.inOrder depth r.fields 0 r.start cs
      let a ← r.finish s
      return (a, ← closeList rest) := by
  simp [Record.decoder, skipBlanks_cons, isBlank]

theorem yields_record_list (h : r.Judged) (gap : Blanks) (its : List (Item Tree)) :
    Yields (r.decoder (depth + 1)) (Tree.list gap its).chars
      ((Record.fill depth r.fields (its.map Item.value) r.start).bind
        fun s => (r.finish s).toOption) := by
  intro rest _
  have hread := listed_record r depth h 0 r.start its rest
  have hjoined : joined ((0 : Nat) == 0) (its.map Item.chars) =
    joined true (its.map Item.chars) := rfl
  rw [hjoined, ← listed_blanks _ _ _ gap, Record.listed, toOption_bind] at hread
  simp only [Tree.chars_list, List.cons_append, List.append_assoc, List.nil_append, decoder_list,
    toOption_bind]
  generalize (r.inOrder depth r.fields 0 r.start (gap.chars ++
    (joined true (its.map Item.chars) ++ ']' :: rest))).toOption = x at hread ⊢
  -- The closing bracket is looked for when the fields have been filled, and before they are
  -- checked.
  cases x with
  | none =>
    cases hfill : Record.fill depth r.fields (its.map Item.value) r.start with
    | none => rfl
    | some s => rw [hfill] at hread; cases hread
  | some p =>
    simp only [Option.bind_some] at hread ⊢
    cases hclose : closeList p.2 with
    | error e =>
      cases hfill : Record.fill depth r.fields (its.map Item.value) r.start with
      | none => cases r.finish p.1 <;> rfl
      | some s => rw [hfill, hclose] at hread; cases hread
    | ok rest' =>
      cases hfill : Record.fill depth r.fields (its.map Item.value) r.start with
      | none => rw [hfill, hclose] at hread; cases hread
      | some s =>
        rw [hfill, hclose] at hread
        obtain ⟨rfl, rfl⟩ := Prod.mk.inj (Option.some.inj hread)
        cases hfinish : r.finish p.1 <;> simp [hfinish]

theorem yields_record_none {w : Tree} (h : depth = 0 ∨ ∃ t ht, w = .scalar t ht) :
    Yields (r.decoder depth) w.chars none := by
  obtain ⟨c, cs, hcs, hblank, hlist, hobject⟩ := w.exists_head
  refine yields_none fun rest => ?_
  rw [hcs, Record.decoder, List.cons_append, skipBlanks_cons, hblank]
  simp only [Bool.false_eq_true, if_false]
  -- A record is read from an object or a list, and only with depth left.
  split
  · next hc =>
    obtain ⟨gap, members, rfl⟩ := hobject hc
    obtain rfl : depth = 0 := h.resolve_right (by simp)
    exact ⟨_, rfl⟩
  split
  · next hc =>
    obtain ⟨gap, items, rfl⟩ := hlist hc
    obtain rfl : depth = 0 := h.resolve_right (by simp)
    exact ⟨_, rfl⟩
  · exact ⟨_, rfl⟩

/-- A record is judged by itself, if its fields are. -/
theorem local_record (h : r.Judged) : Local r.decoder := by
  intro depth
  refine .of_yields (fun bs cs => by rw [Record.decoder, Record.decoder, bs.skipBlanks])
    fun w => ?_
  cases depth with
  | zero => exact ⟨_, yields_record_none (.inl rfl)⟩
  | succ depth =>
    cases w with
    | scalar t ht => exact ⟨_, yields_record_none (.inr ⟨t, ht, rfl⟩)⟩
    | list gap its => exact ⟨_, yields_record_list h gap its⟩
    | object gap ms => exact ⟨_, yields_record_object h gap ms⟩

/-! ## Fields that are put into their places -/

section Places

variable {β γ : Type} {f g : Field σ} {decoder : Decoder β} {decoder' : Decoder γ}
  {put : σ → β → σ} {put' : σ → γ → σ}

/-- A field is read by a decoder, and what was read is put into its place. -/
structure Field.Puts (f : Field σ) (decoder : Decoder β) (put : σ → β → σ) : Prop where
  judged : Local decoder
  read_eq : ∀ s, f.read s = fun depth cs => do
    let (x, rest) ← decoder depth cs
    return (put s x, rest)

theorem Field.Puts.local_read (h : f.Puts decoder put) (s : σ) : Local (f.read s) := by
  rw [h.read_eq]
  exact h.judged.map (put s)

theorem Field.Puts.tree_read (h : f.Puts decoder put) (s : σ) (v : Tree) :
    v.read (f.read s) depth = (v.read decoder depth).map (put s) := by
  rw [h.read_eq]
  exact read_map h.judged (put s) v depth

/-- A field is read from a value, unless it was read before. -/
def Field.take (f : Field σ) (depth : Nat) (v : Tree) (s : σ) : Option σ :=
  if f.isSet s then none else v.read (f.read s) depth

/-- Two fields may be read in any order. -/
def Field.Apart (f g : Field σ) : Prop :=
  ∀ depth v w s, (f.take depth v s).bind (g.take depth w) =
    (g.take depth w s).bind (f.take depth v)

instance : Std.Symm (Field.Apart (σ := σ)) := ⟨fun _ _ h depth v w s => (h depth w v s).symm⟩

theorem Field.Puts.take_eq (h : f.Puts decoder put) (v : Tree) :
    f.take depth v = fun s => if f.isSet s then none else (v.read decoder depth).map (put s) := by
  funext s
  rw [Field.take, h.tree_read]

/-- Fields with places of their own may be read in any order. -/
theorem Field.Puts.apart (hf : f.Puts decoder put) (hg : g.Puts decoder' put')
    (hset : ∀ s x, g.isSet (put s x) = g.isSet s) (hset' : ∀ s y, f.isSet (put' s y) = f.isSet s)
    (hput : ∀ s x y, put' (put s x) y = put (put' s y) x) : f.Apart g := by
  intro depth v w s
  rw [hf.take_eq, hg.take_eq]
  cases v.read decoder depth <;> cases w.read decoder' depth <;>
    cases hfset : f.isSet s <;> cases hgset : g.isSet s <;>
      simp [hset, hset', hput, hfset, hgset]

end Places

/-! ## The order of members -/

/-- A record whose fields may be read in any order. -/
def Record.Independent (r : Record σ α) : Prop :=
  ∀ f ∈ r.fields, ∀ g ∈ r.fields, f.name ≠ g.name → f.Apart g

/-- It is enough to look at each two fields once. -/
theorem Record.independent_of_pairwise (h : r.fields.Pairwise Field.Apart) : r.Independent :=
  fun _ hf _ hg hne => h.forall hf hg fun heq => hne (congrArg _ heq)

theorem step_eq (s : σ) (name : Option String) (v : Tree) :
    r.step depth s (name, v) = name.bind fun name =>
      match r.fields.find? (fun f => f.name = name) with
      | some f => f.take depth v s
      | none => some s := rfl

/-- Members with different names may change places. -/
theorem step_comm (h : r.Independent) {name name' : Option String}
    (hne : ∀ n, name = some n → name' ≠ some n) (v w : Tree) (s : σ) :
    (r.step depth s (name, v)).bind (fun s => r.step depth s (name', w)) =
      (r.step depth s (name', w)).bind fun s => r.step depth s (name, v) := by
  simp only [step_eq]
  -- A name that is no field of the record changes nothing.
  cases name with
  | none => cases name' <;> simp
  | some n =>
    cases name' with
    | none => simp
    | some n' =>
      simp only [Option.bind_some]
      cases hf : r.fields.find? (fun f => f.name = n) with
      | none => simp
      | some f =>
        cases hg : r.fields.find? (fun f => f.name = n') with
        | none => simp
        | some g =>
          have hfname : f.name = n := by simpa using List.find?_some hf
          have hgname : g.name = n' := by simpa using List.find?_some hg
          have hnames : f.name ≠ g.name := by
            rw [hfname, hgname]
            rintro rfl
            exact hne n rfl rfl
          exact h f (List.mem_of_find?_eq_some hf) g (List.mem_of_find?_eq_some hg) hnames
            depth v w s

/-- The order of members with different names does not matter. -/
theorem foldlM_perm (h : r.Independent) {es es' : List (Option String × Tree)}
    (hperm : es.Perm es') (hnames : (es.filterMap (·.1)).Nodup) (s : σ) :
    es.foldlM (r.step depth) s = es'.foldlM (r.step depth) s := by
  induction hperm generalizing s with
  | nil => rfl
  | cons e _ ih =>
    have htail := hnames.sublist ((List.sublist_cons_self _ _).filterMap _)
    simp only [List.foldlM_cons]
    exact congrArg _ (funext fun s => ih htail s)
  | swap e e' es =>
    have hne : ∀ n, e.1 = some n → e'.1 ≠ some n := by
      intro n hn hn'
      simp [hn, hn'] at hnames
    simp only [List.foldlM_cons, ← bind_assoc]
    exact congrArg (· >>= _) (step_comm h hne e.2 e'.2 s).symm
  | trans hperm _ ih ih' =>
    rw [ih hnames, ih' ((hperm.filterMap _).nodup_iff.1 hnames)]

end Decoder

end BlockFlow
