import BlockFlow.Proofs.List
import BlockFlow.Proofs.Json.Records

/-!
# Trees of which a decoder makes the same

Of a container a decoder makes something from its parts, whatever blanks stand between them
(`Decoder.Parts`). So if two containers have the same parts, or differ in a part of which the
decoder for it makes the same, the decoder for the container makes the same of both
(`Decoder.Same`).

## Key results

- `parts_list`, `parts_object`, `parts_valueWith`, `parts_record`: what is made of the parts
- `same_list_item`, `same_object_member`, `same_value_item`, `same_value_member`,
  `same_record_item`, `same_record_member`: one part may be exchanged for a like one
- `same_object_perm`, `same_value_perm`, `same_record_perm`: members may change places
-/

namespace BlockFlow.Decoder

open Json

variable {σ α β : Type} {D : Decoder α} {R : α → α → Prop}

/-! ## Containers by their parts -/

/-- What a decoder makes of lists and of objects with these parts, where a container may be opened;
where none may be opened, it makes nothing of them. -/
structure Parts (D : Decoder α) (ofItems : Nat → List Tree → Option α)
    (ofMembers : Nat → List (Option String × Tree) → Option α) : Prop where
  list : ∀ gap its depth,
    (Tree.list gap its).read D (depth + 1) = ofItems depth (its.map (·.value))
  object : ∀ gap ms depth,
    (Tree.object gap ms).read D (depth + 1) = ofMembers depth (ms.map Member.entry)
  shallow : ∀ w : Tree, (∀ t ht, w ≠ .scalar t ht) → w.read D 0 = none

theorem parts_text (expected : String) :
    Parts (text expected) (fun _ _ => none) (fun _ _ => none) where
  list gap its _ := read_text_list expected _ gap its
  object gap ms _ := read_text_object expected _ gap ms
  shallow w hw := by
    cases w with
    | scalar t ht => exact absurd rfl (hw t ht)
    | list gap its => exact read_text_list expected 0 gap its
    | object gap ms => exact read_text_object expected 0 gap ms

theorem parts_list {item : Decoder α} (hitem : Local item) :
    Parts (list item) (fun depth vs => vs.mapM (·.read item depth)) (fun _ _ => none) where
  list gap its depth := (yields_list (hitem depth) gap its).read_eq
  object _ _ _ := (yields_list_none (.inr (by simp))).read_eq
  shallow _ _ := (yields_list_none (.inl rfl)).read_eq

theorem parts_object {value : Decoder α} (hvalue : Local value) :
    Parts (object value) (fun _ _ => none) (fun depth es => es.mapM (readEntry value depth)) where
  list _ _ _ := (yields_object_none (.inr (by simp))).read_eq
  object gap ms depth := (yields_object (hvalue depth) gap ms).read_eq
  shallow _ _ := (yields_object_none (.inl rfl)).read_eq

theorem parts_record {r : Record σ α} (hr : r.Judged) : Parts r.decoder
    (fun depth vs => (Record.fill depth r.fields vs r.start).bind fun s => (r.finish s).toOption)
    (fun depth es => (es.foldlM (r.step depth) r.start).bind fun s => (r.finish s).toOption) where
  list gap its _ := (yields_record_list hr gap its).read_eq
  object gap ms _ := (yields_record_object hr gap ms).read_eq
  shallow _ _ := (yields_record_none (.inl rfl)).read_eq

/-- The name of the first member. -/
def firstName? (es : List (Option String × Tree)) : Option String := es.head?.bind (·.1)

/-- What is made of the members of a value of any type: an object that announces an embedded text
stands for its value. -/
def readMembers (embedded : Option (String → Except JsonError Json)) (depth : Nat)
    (es : List (Option String × Tree)) : Option Json :=
  match embedded with
  | none => (es.mapM (readEntry verbatim depth)).map .obj
  | some value =>
    if firstName? es = some embeddedName then
      es.sole?.bind fun e =>
        (e.2.read (text "raw value") depth).bind fun s => (value s).toOption
    else (es.mapM (readEntry (valueWith (some value)) depth)).map .obj

theorem announces_iff {ms : List (Member Tree)} :
    Announces ms ↔ firstName? (ms.map Member.entry) = some embeddedName := by
  cases ms with
  | nil => simp [Announces, firstName?]
  | cons m ms => simp [Announces, firstName?, Member.entry]

theorem parts_valueWith (embedded : Option (String → Except JsonError Json)) :
    Parts (valueWith embedded)
      (fun depth vs => (vs.mapM (Tree.read · (valueWith embedded) depth)).map .arr)
      (readMembers embedded) where
  list gap its depth := (yields_valueWith_list (local_valueWith embedded depth) gap its).read_eq
  object gap ms depth := by
    have hlocal := local_valueWith embedded depth
    cases embedded with
    | none => exact (yields_valueWith_object hlocal gap (by simp)).read_eq
    | some value =>
      rw [readMembers]
      split
      · next hannounces =>
        obtain ⟨m, ms, rfl, hname⟩ := announces_iff.2 hannounces
        rw [(yields_valueWith_embedded value gap hname ms).read_eq]
        cases ms with
        | nil => rfl
        | cons m' ms => rw [if_neg (List.cons_ne_nil _ _)]; rfl
      · next hplain =>
        exact (yields_valueWith_object hlocal gap fun _ h => hplain (announces_iff.1 h)).read_eq
  shallow w hw := (yields_valueWith_zero hw).read_eq

theorem parts_verbatim : Parts verbatim
    (fun depth vs => (vs.mapM (Tree.read · verbatim depth)).map .arr)
    (fun depth es => (es.mapM (readEntry verbatim depth)).map .obj) :=
  parts_valueWith none

/-! ## The same of two trees -/

/-- A decoder makes the same of two trees, as far as `R` tells values apart. -/
def Same (D : Decoder α) (R : α → α → Prop) (w w' : Tree) : Prop :=
  ∀ depth, Option.Rel R (w.read D depth) (w'.read D depth)

/-- Of two trees of which the same is made, the same is judged. -/
theorem Same.refine {w w' : Tree} (h : Same D R w w') (hD : Local D)
    {judge : α → Except JsonError β} (hjudge : ∀ a a', R a a' → judge a = judge a') :
    Same (refine D judge) Eq w w' := by
  intro depth
  rw [read_refine hD, read_refine hD]
  apply rel_bind (h depth)
  intro a a' hR
  rw [hjudge a a' hR]
  exact rel_of_eq (fun _ => rfl) rfl

namespace Parts

variable {ofItems : Nat → List Tree → Option α}
  {ofMembers : Nat → List (Option String × Tree) → Option α} (h : Parts D ofItems ofMembers)
include h

theorem same_list (gap gap' : Blanks) {its its' : List (Item Tree)}
    (hparts : ∀ depth, Option.Rel R (ofItems depth (its.map (·.value)))
      (ofItems depth (its'.map (·.value)))) :
    Same D R (.list gap its) (.list gap' its') := by
  intro depth
  cases depth with
  | zero =>
    rw [h.shallow _ (by simp), h.shallow _ (by simp)]
    exact .none
  | succ depth =>
    rw [h.list, h.list]
    exact hparts depth

theorem same_object (gap gap' : Blanks) {ms ms' : List (Member Tree)}
    (hparts : ∀ depth, Option.Rel R (ofMembers depth (ms.map Member.entry))
      (ofMembers depth (ms'.map Member.entry))) :
    Same D R (.object gap ms) (.object gap' ms') := by
  intro depth
  cases depth with
  | zero =>
    rw [h.shallow _ (by simp), h.shallow _ (by simp)]
    exact .none
  | succ depth =>
    rw [h.object, h.object]
    exact hparts depth

/-- The blanks in a list do not matter. -/
theorem same_list_blanks (hR : ∀ a, R a a) (gap gap' : Blanks) {its its' : List (Item Tree)}
    (hvalues : its.map (·.value) = its'.map (·.value)) :
    Same D R (.list gap its) (.list gap' its') :=
  h.same_list gap gap' fun depth => by
    rw [hvalues]
    exact rel_of_eq hR rfl

/-- The blanks in an object do not matter. -/
theorem same_object_blanks (hR : ∀ a, R a a) (gap gap' : Blanks) {ms ms' : List (Member Tree)}
    (hentries : ms.map Member.entry = ms'.map Member.entry) :
    Same D R (.object gap ms) (.object gap' ms') :=
  h.same_object gap gap' fun depth => by
    rw [hentries]
    exact rel_of_eq hR rfl

/-- Where something else is due, nothing is made of a list. -/
theorem same_list_none (hnone : ∀ depth vs, ofItems depth vs = none) (gap gap' : Blanks)
    (its its' : List (Item Tree)) : Same D R (.list gap its) (.list gap' its') :=
  h.same_list gap gap' fun depth => by
    rw [hnone, hnone]
    exact .none

/-- Where something else is due, nothing is made of an object. -/
theorem same_object_none (hnone : ∀ depth es, ofMembers depth es = none) (gap gap' : Blanks)
    (ms ms' : List (Member Tree)) : Same D R (.object gap ms) (.object gap' ms') :=
  h.same_object gap gap' fun depth => by
    rw [hnone, hnone]
    exact .none

end Parts

/-! ## Lists -/

section Lists

variable {gap : Blanks} {pre post : List (Item Tree)} {i : Item Tree} {v' : Tree}

theorem same_list_item {item : Decoder α} (hitem : Local item) {S : List α → List α → Prop}
    (h : Same item R i.value v')
    (hS : ∀ xs x x' ys, xs.length = pre.length → R x x' → S (xs ++ x :: ys) (xs ++ x' :: ys)) :
    Same (list item) S (.list gap (pre ++ i :: post))
      (.list gap (pre ++ { i with value := v' } :: post)) := by
  apply (parts_list hitem).same_list
  intro depth
  rw [List.map_append, List.map_append]
  exact List.rel_mapM_replace (h depth) _ _ (by simpa using hS)

theorem same_value_item (embedded : Option (String → Except JsonError Json))
    {R S : Json → Json → Prop} (h : Same (valueWith embedded) R i.value v')
    (hS : ∀ xs x x' ys, xs.length = pre.length → R x x' →
      S (.arr (xs ++ x :: ys)) (.arr (xs ++ x' :: ys))) :
    Same (valueWith embedded) S (.list gap (pre ++ i :: post))
      (.list gap (pre ++ { i with value := v' } :: post)) := by
  apply (parts_valueWith embedded).same_list
  intro depth
  rw [List.map_append, List.map_append]
  apply rel_map (R := fun xs ys => S (.arr xs) (.arr ys)) _ fun _ _ h => h
  exact List.rel_mapM_replace (h depth) _ _ (by simpa using hS)

end Lists

/-! ## Objects -/

section Objects

variable {value : Decoder α} {depth : Nat} {gap : Blanks} {pre post ms ms' : List (Member Tree)}
  {m : Member Tree} {v' : Tree}

/-- Of a member whose value is exchanged for a like one the same is made. -/
theorem rel_readEntry {name : Option String} {v : Tree}
    (h : ∀ n, name = some n → Same value R v v') :
    Option.Rel (fun p p' => name = some p.1 ∧ p.1 = p'.1 ∧ R p.2 p'.2)
      (readEntry value depth (name, v)) (readEntry value depth (name, v')) := by
  cases name with
  | none => exact .none
  | some n => exact rel_map (h n rfl depth) fun _ _ hR => ⟨rfl, rfl, hR⟩

theorem rel_readEntries (h : ∀ name, m.key.name? = some name → Same value R m.value v')
    {S : List (String × α) → List (String × α) → Prop}
    (hS : ∀ xs name x x' ys, m.key.name? = some name → R x x' →
      S (xs ++ (name, x) :: ys) (xs ++ (name, x') :: ys)) :
    Option.Rel S (((pre ++ m :: post).map Member.entry).mapM (readEntry value depth))
      (((pre ++ { m with value := v' } :: post).map Member.entry).mapM
        (readEntry value depth)) := by
  rw [List.map_append, List.map_append]
  apply List.rel_mapM_replace (rel_readEntry h)
  rintro xs ⟨name, x⟩ ⟨_, x'⟩ ys - ⟨hname, rfl, hR⟩
  exact hS xs name x x' ys hname hR

/-- Members are read under their names. -/
theorem names_of_readEntries {es : List (Option String × Tree)} {xs : List (String × α)}
    (h : es.mapM (readEntry value depth) = some xs) : es.filterMap (·.1) = xs.map (·.1) := by
  apply List.filterMap_of_map_eq
  rw [List.map_map]
  refine (List.map_of_mapM_some (fun e x hx => ?_) h).symm
  obtain ⟨name, hname, hx⟩ := Option.bind_eq_some_iff.1 hx
  obtain ⟨a, -, rfl⟩ := Option.map_eq_some_iff.1 hx
  exact hname.symm

theorem rel_readEntries_perm (hperm : ms.Perm ms')
    {S : List (String × α) → List (String × α) → Prop}
    (hS : ∀ xs xs', xs.Perm xs' → xs.map (·.1) = ms.filterMap (·.key.name?) → S xs xs') :
    Option.Rel S ((ms.map Member.entry).mapM (readEntry value depth))
      ((ms'.map Member.entry).mapM (readEntry value depth)) := by
  have hrel := List.rel_mapM_perm (readEntry value depth) (hperm.map Member.entry)
  generalize hread : (ms.map Member.entry).mapM (readEntry value depth) = x,
    (ms'.map Member.entry).mapM (readEntry value depth) = y at hrel
  cases hrel with
  | none => exact .none
  | some hxs =>
    have hnames := names_of_readEntries hread
    rw [List.filterMap_map] at hnames
    exact .some (hS _ _ hxs hnames.symm)

theorem same_object_member (hvalue : Local value) {S : List (String × α) → List (String × α) → Prop}
    (h : ∀ name, m.key.name? = some name → Same value R m.value v')
    (hS : ∀ xs name x x' ys, m.key.name? = some name → R x x' →
      S (xs ++ (name, x) :: ys) (xs ++ (name, x') :: ys)) :
    Same (object value) S (.object gap (pre ++ m :: post))
      (.object gap (pre ++ { m with value := v' } :: post)) :=
  (parts_object hvalue).same_object gap gap fun _ => rel_readEntries h hS

theorem same_object_perm (hvalue : Local value) (hperm : ms.Perm ms')
    {S : List (String × α) → List (String × α) → Prop}
    (hS : ∀ xs xs', xs.Perm xs' → xs.map (·.1) = ms.filterMap (·.key.name?) → S xs xs') :
    Same (object value) S (.object gap ms) (.object gap ms') :=
  (parts_object hvalue).same_object gap gap fun _ => rel_readEntries_perm hperm hS

/-! ### Objects of any type -/

variable {embedded : Option (String → Except JsonError Json)} {R S : Json → Json → Prop}

theorem firstName?_replace (es es' : List (Option String × Tree)) (name : Option String)
    (v v' : Tree) :
    firstName? (es ++ (name, v) :: es') = firstName? (es ++ (name, v') :: es') := by
  cases es <;> rfl

/-- A member of an object may be exchanged for a like one, which is also the same as a text. -/
theorem same_value_member
    (h : ∀ name, m.key.name? = some name → Same (valueWith embedded) R m.value v')
    (htext : embedded.isSome = true → Same (text "raw value") Eq m.value v')
    (hS : ∀ xs name x x' ys, m.key.name? = some name → R x x' →
      S (.obj (xs ++ (name, x) :: ys)) (.obj (xs ++ (name, x') :: ys)))
    (hrefl : ∀ x, S x x) :
    Same (valueWith embedded) S (.object gap (pre ++ m :: post))
      (.object gap (pre ++ { m with value := v' } :: post)) := by
  apply (parts_valueWith embedded).same_object
  intro depth
  have hplain : Option.Rel (fun xs ys => S (.obj xs) (.obj ys))
      (((pre ++ m :: post).map Member.entry).mapM (readEntry (valueWith embedded) depth))
      (((pre ++ { m with value := v' } :: post).map Member.entry).mapM
        (readEntry (valueWith embedded) depth)) := rel_readEntries h hS
  cases embedded with
  | none => exact rel_map hplain fun _ _ h => h
  | some value =>
    have hname := firstName?_replace (pre.map Member.entry) (post.map Member.entry) m.key.name?
      m.value v'
    simp only [List.map_append, List.map_cons, Member.entry] at hplain ⊢
    simp only [readMembers, hname]
    split
    · -- Only the value of an only member is read, and that as a text.
      rw [List.sole?_append_cons, List.sole?_append_cons]
      split
      · rw [Option.bind_some, Option.bind_some, eq_of_rel (htext rfl depth)]
        exact rel_of_eq hrefl rfl
      · exact .none
    · exact rel_map hplain fun _ _ h => h

/-- The members of an object may change places, but for one that announces an embedded text. -/
theorem same_value_perm (hperm : ms.Perm ms')
    (hfirst : embedded.isSome = true → (Announces ms ↔ Announces ms'))
    (hS : ∀ xs xs', xs.Perm xs' → xs.map (·.1) = ms.filterMap (·.key.name?) →
      S (.obj xs) (.obj xs'))
    (hrefl : ∀ x, S x x) :
    Same (valueWith embedded) S (.object gap ms) (.object gap ms') := by
  apply (parts_valueWith embedded).same_object
  intro depth
  have hplain : Option.Rel (fun xs ys => S (.obj xs) (.obj ys))
      ((ms.map Member.entry).mapM (readEntry (valueWith embedded) depth))
      ((ms'.map Member.entry).mapM (readEntry (valueWith embedded) depth)) :=
    rel_readEntries_perm hperm hS
  cases embedded with
  | none => exact rel_map hplain fun _ _ h => h
  | some value =>
    have hfirst := hfirst rfl
    -- Whether an object announces a text hangs on its first member, so the order has to keep
    -- that.
    rw [announces_iff, announces_iff] at hfirst
    simp only [readMembers, hfirst]
    split
    · rw [(hperm.map Member.entry).sole?_eq]
      exact rel_of_eq hrefl rfl
    · exact rel_map hplain fun _ _ h => h

end Objects

/-! ## Records -/

section Records

variable {r : Record σ α} {f : Field σ} {v v' : Tree} {gap : Blanks} {depth : Nat}

/-- A field is read from two values alike. -/
def Field.Alike (f : Field σ) (v v' : Tree) : Prop :=
  ∀ s depth, v.read (f.read s) depth = v'.read (f.read s) depth

theorem Field.Puts.alike {value : Decoder β} {put : σ → β → σ} {R : β → β → Prop}
    (h : f.Puts value put) (hsame : Same value R v v')
    (hput : ∀ s x x', R x x' → put s x = put s x') : f.Alike v v' := by
  intro s depth
  rw [h.tree_read, h.tree_read]
  exact eq_of_rel (rel_map (hsame depth) fun _ _ hR => hput s _ _ hR)

theorem fill_replace {fs : List (Field σ)} {vs us : List Tree}
    (h : ∀ f, fs[vs.length]? = some f → f.Alike v v') (s : σ) :
    Record.fill depth fs (vs ++ v :: us) s = Record.fill depth fs (vs ++ v' :: us) s := by
  induction vs generalizing fs s with
  | nil =>
    cases fs with
    | nil => rfl
    | cons f fs => rw [List.nil_append, List.nil_append, Record.fill, Record.fill, h f rfl]
  | cons u vs ih =>
    cases fs with
    | nil => rfl
    | cons f fs =>
      rw [List.cons_append, List.cons_append, Record.fill, Record.fill]
      exact congrArg _ (funext fun s => ih h s)

theorem same_record_item (hr : r.Judged) {pre post : List (Item Tree)} {i : Item Tree}
    (h : ∀ f, r.fields[pre.length]? = some f → f.Alike i.value v') :
    Same r.decoder Eq (.list gap (pre ++ i :: post))
      (.list gap (pre ++ { i with value := v' } :: post)) := by
  apply (parts_record hr).same_list
  intro depth
  simp only [List.map_append, List.map_cons]
  rw [fill_replace (by simpa using h)]
  exact rel_of_eq (fun _ => rfl) rfl

variable {pre post ms ms' : List (Member Tree)} {m : Member Tree}

theorem step_replace {name : Option String}
    (h : ∀ f ∈ r.fields, name = some f.name → f.Alike v v') (s : σ) :
    r.step depth s (name, v) = r.step depth s (name, v') := by
  rw [step_eq, step_eq]
  cases name with
  | none => rfl
  | some name =>
    rw [Option.bind_some, Option.bind_some]
    split
    · next f hf =>
      have hname : f.name = name := by simpa using List.find?_some hf
      rw [Field.take, Field.take, h f (List.mem_of_find?_eq_some hf) (by rw [hname])]
    · rfl

theorem same_record_member (hr : r.Judged)
    (h : ∀ f ∈ r.fields, m.key.name? = some f.name → f.Alike m.value v') :
    Same r.decoder Eq (.object gap (pre ++ m :: post))
      (.object gap (pre ++ { m with value := v' } :: post)) := by
  apply (parts_record hr).same_object
  intro depth
  have hstep : ∀ s, r.step depth s (m.key.name?, m.value) = r.step depth s (m.key.name?, v') :=
    step_replace h
  simp only [List.map_append, List.map_cons, List.foldlM_append, List.foldlM_cons, Member.entry,
    hstep]
  exact rel_of_eq (fun _ => rfl) rfl

theorem same_record_perm (hr : r.Judged) (hind : r.Independent) (hperm : ms.Perm ms')
    (hnames : (ms.filterMap (·.key.name?)).Nodup) :
    Same r.decoder Eq (.object gap ms) (.object gap ms') := by
  apply (parts_record hr).same_object
  intro depth
  rw [foldlM_perm hind (hperm.map Member.entry) (by rwa [List.filterMap_map])]
  exact rel_of_eq (fun _ => rfl) rfl

/-- A member that is no field may be added. -/
theorem same_record_insert (hr : r.Judged) {name : String} (hname : m.key.name? = some name)
    (hnew : ∀ f ∈ r.fields, f.name ≠ name) :
    Same r.decoder Eq (.object gap (pre ++ post)) (.object gap (pre ++ m :: post)) := by
  apply (parts_record hr).same_object
  intro depth
  have hstep : ∀ s, r.step depth s m.entry = some s := by
    intro s
    have hfind : r.fields.find? (fun f => f.name = name) = none := by
      simpa [List.find?_eq_none] using hnew
    rw [Member.entry, step_eq, hname, Option.bind_some, hfind]
  simp only [List.map_append, List.map_cons, List.foldlM_append, List.foldlM_cons, hstep]
  exact rel_of_eq (fun _ => rfl) rfl

end Records

end BlockFlow.Decoder
