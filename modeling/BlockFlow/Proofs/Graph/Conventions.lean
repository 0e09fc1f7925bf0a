import Mathlib.Logic.Relation
import BlockFlow.Proofs.Bytes
import BlockFlow.Proofs.Graph.Reading
import BlockFlow.Proofs.Graph.Shapes

/-!
# Conventions of graph documents

The same graph may be written in several ways. Which ways there are to write a value depends on
what the value is read as, its `Role`: nothing inside a state may change, and only in an id do a
number and its digits mean the same. `Rule` lists the ways, `Rewrites` applies one of them anywhere
in a value, and `Document.Restates` in a whole document. Two values are `Role.Alike` if the decoder
for their role makes the same of both. Each rule gives like values (`Rule.alike`), and so does the
exchange of a part for a like one (`Role.alike_item`, `Role.alike_member`), hence every rewriting
(`Rewrites.alike`).

## Key results

- `Document.conventions_agree`: documents that restate each other mean the same graph
- `Document.meaning_changes`: what the rules leave out
-/

namespace BlockFlow

open Decoder (Announces Parts Same verbatim)
open Json (Blanks Item Key Member ScalarText StringText Tree)

/-! ## Roles -/

/-- What a value in a graph document is read as: an input may be a part of one, and edges are read
as a `Shape`. -/
inductive Role where
  | document
  | nodes
  | node
  | kind
  | state
  | inputs
  | input
  | outputs
  | ids
  | whole (shape : Shape)
  | ignored

namespace Role

/-- The fields of a record, with what their values are read as. -/
def fields : Role → List (String × Role)
  | .document => [("Nodes", .nodes), ("Edges", .whole .edges)]
  | .node => [("Kind", .kind), ("State", .state), ("Inputs", .inputs), ("Outputs", .outputs)]
  | _ => []

/-- What the member of this name is read as, if the name has no fault. -/
def member (role : Role) (name : Option String) : Role :=
  match role with
  | .document | .node => (name.bind (List.lookup · role.fields)).getD .ignored
  | .nodes => .node
  | .state => .state
  | .inputs | .input => .input
  | .outputs => .ids
  | .whole s => (name.map fun name => .whole (s.member name)).getD .ignored
  | .kind | .ids | .ignored => .ignored

/-- What the item at this index of a list is read as: a record may be a list of its fields. -/
def item (role : Role) (index : Nat) : Role :=
  match role with
  | .document | .node => role.member (role.fields[index]?.map (·.1))
  | .state => .state
  | .input => .input
  | .ids => .whole .id
  | .whole s => .whole (s.item index)
  | .nodes | .kind | .inputs | .outputs | .ignored => .ignored

end Role

/-! ## Rewriting -/

/-- A value of this role may be written otherwise. -/
inductive Rule : Role → Tree → Tree → Prop where
  /-- There may be other blanks in a list. -/
  | items {role gap gap'} {its its' : List (Item Tree)} (hrole : role ≠ .state)
    (hvalues : its.map (·.value) = its'.map (·.value)) :
    Rule role (.list gap its) (.list gap' its')
  /-- There may be other blanks in an object, and other escapes in its names. -/
  | members {role gap gap'} {ms ms' : List (Member Tree)} (hrole : role ≠ .state)
    (hentries : ms.map Member.entry = ms'.map Member.entry) :
    Rule role (.object gap ms) (.object gap' ms')
  /-- Members with distinct names may change places, but in an input not one that announces an
  embedded text: it does so only in the first place. -/
  | perm {role gap} {ms ms' : List (Member Tree)} (hrole : role ≠ .state) (hperm : ms.Perm ms')
    (hnames : (ms.filterMap (·.key.name?)).Nodup ∨ role = .ignored ∨ role = .whole .any)
    (hfirst : role = .input → (Announces ms ↔ Announces ms')) :
    Rule role (.object gap ms) (.object gap ms')
  /-- A number that is an id may be written as the string of its digits. -/
  | digits {n : Nat} {t : List Char} (hn : n < 2 ^ 64) (ht : StringText t)
    (hvalue : Json.string t = .ok (toString n, [])) (hnumber : ScalarText (toString n).toList)
    (hstring : ScalarText ('"' :: t)) :
    Rule (.whole .id) (.scalar (toString n).toList hnumber) (.scalar ('"' :: t) hstring)
  /-- A record may have a member that is no field. -/
  | unknown {role gap name} {pre post : List (Member Tree)} {m : Member Tree}
    (hrole : role = .document ∨ role = .node)
    (hname : m.key.name? = some name) (hnew : name ∉ role.fields.map (·.1)) :
    Rule role (.object gap (pre ++ post)) (.object gap (pre ++ m :: post))
  /-- Edges under keys may be listed in the order of the bytes of their keys. -/
  | keys {gap gap'} {ms sorted : List (Member Tree)} {names : List String}
    {its : List (Item Tree)} (hperm : ms.Perm sorted)
    (hnames : sorted.map (·.key.name?) = names.map some)
    (hsorted : names.Pairwise fun name name' => bytes name < bytes name')
    (hvalues : its.map (·.value) = sorted.map (·.value)) :
    Rule (.whole .edges) (.object gap ms) (.list gap' its)

/-- Somewhere in a value of this role, a part is written otherwise. -/
inductive Rewrites : Role → Tree → Tree → Prop where
  | here {role w w'} (h : Rule role w w') : Rewrites role w w'
  | item {role gap pre i v' post} (h : Rewrites (role.item pre.length) i.value v') :
    Rewrites role (.list gap (pre ++ i :: post)) (.list gap (pre ++ { i with value := v' } :: post))
  | member {role gap pre m v' post} (h : Rewrites (role.member m.key.name?) m.value v') :
    Rewrites role (.object gap (pre ++ m :: post))
      (.object gap (pre ++ { m with value := v' } :: post))

/-- A well-formed text: a value between blanks. -/
structure Document where
  before : Blanks
  value : Tree
  after : Blanks

namespace Document

def text (d : Document) : String :=
  String.ofList (d.before.chars ++ (d.value.chars ++ d.after.chars))

/-- A document is written otherwise in one place. -/
inductive Restates : Document → Document → Prop where
  | blanks {before value after} (before' after' : Blanks) :
    Restates ⟨before, value, after⟩ ⟨before', value, after'⟩
  | value {before value value' after} (h : Rewrites .document value value') :
    Restates ⟨before, value, after⟩ ⟨before, value', after⟩

end Document

/-! ## What is made of a value -/

namespace Role

/-- Two values mean the same. -/
def Alike : Role → Tree → Tree → Prop
  | .document => Same Graph.record.decoder Eq
  | .nodes => Same (Decoder.object Node.record.decoder) fun xs ys =>
      SortedMap.ofList xs = SortedMap.ofList ys
  | .node => Same Node.record.decoder Eq
  | .kind => Same Decoder.string Eq
  | .state => Eq
  | .inputs => Same (Decoder.object Decoder.value) fun xs ys =>
      SortedMap.ofList (xs.map fun m => (m.1, m.2.canonical)) =
        SortedMap.ofList (ys.map fun m => (m.1, m.2.canonical))
  | .input => fun w w' => Same Decoder.value (fun v v' => v.canonical = v'.canonical) w w' ∧
      -- The value may be that of a member that announces an embedded text.
      Same (Decoder.text "raw value") Eq w w'
  | .outputs => Same (Decoder.object (Decoder.list NodeId.decoder)) fun xs ys =>
      SortedMap.ofList xs = SortedMap.ofList ys
  | .ids => Same (Decoder.list NodeId.decoder) Eq
  | .whole s => Same verbatim s.Agree
  | .ignored => fun _ _ => True

/-- Values mean the same of which every decoder makes the same by their parts. -/
theorem alike_of_same {role : Role} {w w' : Tree} (hrole : role ≠ .state)
    (h : ∀ {α : Type} {D : Decoder α} {ofItems ofMembers} {R : α → α → Prop},
      Parts D ofItems ofMembers → (∀ a, R a a) → Same D R w w') : role.Alike w w' := by
  cases role with
  | document => exact h (Decoder.parts_record Graph.judged) fun _ => rfl
  | nodes => exact h (Decoder.parts_object (Decoder.local_record Node.judged)) fun _ => rfl
  | node => exact h (Decoder.parts_record Node.judged) fun _ => rfl
  | kind => exact h (Decoder.parts_text _) fun _ => rfl
  | state => exact absurd rfl hrole
  | inputs => exact h (Decoder.parts_object (Decoder.local_valueWith _)) fun _ => rfl
  | input =>
    exact ⟨h (Decoder.parts_valueWith _) fun _ => rfl, h (Decoder.parts_text _) fun _ => rfl⟩
  | outputs =>
    exact h (Decoder.parts_object (Decoder.local_list NodeId.local_decoder)) fun _ => rfl
  | ids => exact h (Decoder.parts_list NodeId.local_decoder) fun _ => rfl
  | whole s => exact h (Decoder.parts_valueWith _) s.agree_refl
  | ignored => trivial

theorem node_id_alike {w w' : Tree} (h : (whole .id).Alike w w') :
    Same NodeId.decoder Eq w w' := by
  refine Same.refine h (Decoder.local_valueWith none) fun v v' hv => ?_
  have hv : NodeId.ofJson? v = NodeId.ofJson? v' := hv
  rw [hv]

theorem edges_alike {w w' : Tree} (h : (whole .edges).Alike w w') :
    Same Edge.listDecoder Eq w w' := by
  refine Same.refine h (Decoder.local_valueWith none) fun v v' hv => ?_
  have hv : Edge.listOfJson? v = Edge.listOfJson? v' := hv
  rw [hv]

section Records

variable {v v' : Tree}

theorem alike_document_field {f : Decoder.Field Graph.Partial} (hf : f ∈ Graph.record.fields)
    (h : (document.member (some f.name)).Alike v v') : f.Alike v v' := by
  simp only [Graph.fields_eq, List.mem_cons, List.not_mem_nil, or_false] at hf
  obtain rfl | rfl := hf
  · have h : nodes.Alike v v' := h
    exact Graph.puts_nodes.alike h fun _ _ _ hR => by rw [hR]
  · have h : (whole .edges).Alike v v' := h
    exact Graph.puts_edges.alike (edges_alike h) fun _ _ _ hR => by rw [hR]

theorem alike_node_field {f : Decoder.Field Node.Partial} (hf : f ∈ Node.record.fields)
    (h : (node.member (some f.name)).Alike v v') : f.Alike v v' := by
  simp only [Node.fields_eq, List.mem_cons, List.not_mem_nil, or_false] at hf
  obtain rfl | rfl | rfl | rfl := hf
  · have h : kind.Alike v v' := h
    exact Node.puts_kind.alike h fun _ _ _ hR => by rw [hR]
  · have h : v = v' := h
    intro s depth
    rw [h]
  · have h : inputs.Alike v v' := h
    exact Node.puts_inputs.alike h fun _ _ _ hR => by rw [hR]
  · have h : outputs.Alike v v' := h
    exact Node.puts_outputs.alike h fun _ _ _ hR => by rw [hR]

/-- A field that is known by its place is known by its name. -/
theorem name_of_getElem? {σ : Type} {fs : List (Decoder.Field σ)} {role : Role}
    (hnames : role.fields.map (·.1) = fs.map (·.name)) {index : Nat} {f : Decoder.Field σ}
    (hf : fs[index]? = some f) : role.fields[index]?.map (·.1) = some f.name := by
  rw [← List.getElem?_map, hnames, List.getElem?_map, hf]
  rfl

end Records

/-- An item of a list may be exchanged for one that means the same. -/
theorem alike_item (role : Role) {gap : Blanks} {pre post : List (Item Tree)} {i : Item Tree}
    {v' : Tree} (h : (role.item pre.length).Alike i.value v') :
    role.Alike (.list gap (pre ++ i :: post))
      (.list gap (pre ++ { i with value := v' } :: post)) := by
  -- A role without fields reads no list, so there is nothing in it to agree on.
  cases role with
  | document =>
    refine Decoder.same_record_item Graph.judged fun f hf => ?_
    rw [item, name_of_getElem? rfl hf] at h
    exact alike_document_field (List.mem_of_getElem? hf) h
  | nodes =>
    exact (Decoder.parts_object (Decoder.local_record Node.judged)).same_list_none
      (fun _ _ => rfl) _ _ _ _
  | node =>
    refine Decoder.same_record_item Node.judged fun f hf => ?_
    rw [item, name_of_getElem? rfl hf] at h
    exact alike_node_field (List.mem_of_getElem? hf) h
  | kind => exact (Decoder.parts_text _).same_list_none (fun _ _ => rfl) _ _ _ _
  | state =>
    have h : i.value = v' := h
    subst h
    rfl
  | inputs =>
    exact (Decoder.parts_object (Decoder.local_valueWith _)).same_list_none (fun _ _ => rfl) _ _ _ _
  | input =>
    have h : input.Alike i.value v' := h
    refine ⟨Decoder.same_value_item _ h.1 fun xs x x' ys _ hR => ?_,
      (Decoder.parts_text _).same_list_none (fun _ _ => rfl) _ _ _ _⟩
    simp [Json.canonical, Json.canonicalItems_eq, hR]
  | outputs =>
    exact (Decoder.parts_object (Decoder.local_list NodeId.local_decoder)).same_list_none
      (fun _ _ => rfl) _ _ _ _
  | ids =>
    exact Decoder.same_list_item NodeId.local_decoder (node_id_alike h)
      fun xs x x' ys _ hR => by rw [hR]
  | whole s =>
    refine Decoder.same_value_item _ h fun xs x x' ys hlength hR => s.agree_arr ?_
    rwa [hlength]
  | ignored => trivial

/-- A member of an object may be exchanged for one that means the same. -/
theorem alike_member (role : Role) {gap : Blanks} {pre post : List (Member Tree)} {m : Member Tree}
    {v' : Tree} (h : (role.member m.key.name?).Alike m.value v') :
    role.Alike (.object gap (pre ++ m :: post))
      (.object gap (pre ++ { m with value := v' } :: post)) := by
  cases role with
  | document =>
    refine Decoder.same_record_member Graph.judged fun f hf hname => ?_
    rw [hname] at h
    exact alike_document_field hf h
  | nodes =>
    have h : node.Alike m.value v' := h
    exact Decoder.same_object_member (Decoder.local_record Node.judged) (fun _ _ => h)
      fun xs name x x' ys _ hR => by rw [hR]
  | node =>
    refine Decoder.same_record_member Node.judged fun f hf hname => ?_
    rw [hname] at h
    exact alike_node_field hf h
  | kind => exact (Decoder.parts_text _).same_object_none (fun _ _ => rfl) _ _ _ _
  | state =>
    have h : m.value = v' := h
    subst h
    rfl
  | inputs =>
    have h : input.Alike m.value v' := h
    refine Decoder.same_object_member (Decoder.local_valueWith _) (fun _ _ => h.1)
      fun xs name x x' ys _ hR => ?_
    simp only [List.map_append, List.map_cons, hR]
  | input =>
    have h : input.Alike m.value v' := h
    refine ⟨Decoder.same_value_member (fun _ _ => h.1) (fun _ => h.2)
      (fun xs name x x' ys _ hR => ?_) fun _ => rfl,
      (Decoder.parts_text _).same_object_none (fun _ _ => rfl) _ _ _ _⟩
    simp [Json.canonical, Json.canonicalMembers_eq, hR]
  | outputs =>
    have h : ids.Alike m.value v' := h
    exact Decoder.same_object_member (Decoder.local_list NodeId.local_decoder) (fun _ _ => h)
      fun xs name x x' ys _ hR => by rw [hR]
  | ids => exact (Decoder.parts_list NodeId.local_decoder).same_object_none (fun _ _ => rfl) _ _ _ _
  | whole s =>
    -- A name with a fault is refused, so that there is one to look the value up by.
    cases hkey : m.key.name? with
    | none =>
      exact Decoder.same_value_member (R := Eq) (by simp [hkey]) (by simp) (by simp [hkey])
        s.agree_refl
    | some name =>
      rw [hkey] at h
      have h : (whole (s.member name)).Alike m.value v' := h
      refine Decoder.same_value_member (fun _ _ => h) (by simp)
        (fun xs name' x x' ys hname hR => s.agree_obj ?_) s.agree_refl
      rw [hkey] at hname
      cases hname
      exact hR
  | ignored => trivial

/-- Members may change places. -/
theorem alike_perm {role : Role} {gap : Blanks} {ms ms' : List (Member Tree)}
    (hrole : role ≠ .state) (hperm : ms.Perm ms')
    (hnames : (ms.filterMap (·.key.name?)).Nodup ∨ role = .ignored ∨ role = .whole .any)
    (hfirst : role = .input → (Announces ms ↔ Announces ms')) :
    role.Alike (.object gap ms) (.object gap ms') := by
  have hnodup : role ≠ .ignored → role ≠ .whole .any → (ms.filterMap (·.key.name?)).Nodup :=
    fun hignored hany => hnames.resolve_right (by simp [hignored, hany])
  -- The members matter by their names only, and these are apart where they are read.
  cases role with
  | document =>
    exact Decoder.same_record_perm Graph.judged Graph.independent hperm (hnodup (by simp) (by simp))
  | nodes =>
    refine Decoder.same_object_perm (Decoder.local_record Node.judged) hperm
      fun xs ys hxs hkeys => ?_
    exact SortedMap.ofList_perm hxs (hkeys ▸ hnodup (by simp) (by simp))
  | node =>
    exact Decoder.same_record_perm Node.judged Node.independent hperm (hnodup (by simp) (by simp))
  | kind => exact (Decoder.parts_text _).same_object_none (fun _ _ => rfl) _ _ _ _
  | state => exact absurd rfl hrole
  | inputs =>
    refine Decoder.same_object_perm (Decoder.local_valueWith _) hperm fun xs ys hxs hkeys => ?_
    refine SortedMap.ofList_perm (hxs.map _) ?_
    rw [List.map_map]
    exact (hkeys ▸ hnodup (by simp) (by simp) : (xs.map (·.1)).Nodup)
  | input =>
    refine ⟨Decoder.same_value_perm hperm (fun _ => hfirst rfl) (fun xs ys hxs hkeys => ?_)
      fun _ => rfl, (Decoder.parts_text _).same_object_none (fun _ _ => rfl) _ _ _ _⟩
    have hxs := Json.canonicalMembers_perm hxs (hkeys ▸ hnodup (by simp) (by simp))
    rw [Json.canonical, Json.canonical, hxs]
  | outputs =>
    refine Decoder.same_object_perm (Decoder.local_list NodeId.local_decoder) hperm
      fun xs ys hxs hkeys => ?_
    exact SortedMap.ofList_perm hxs (hkeys ▸ hnodup (by simp) (by simp))
  | ids => exact (Decoder.parts_list NodeId.local_decoder).same_object_none (fun _ _ => rfl) _ _ _ _
  | whole s =>
    refine Decoder.same_value_perm hperm (by simp) (fun xs ys hxs hkeys => s.agree_perm hxs ?_)
      s.agree_refl
    exact fun hs => hkeys ▸ hnodup (by simp) (by simpa using hs)
  | ignored => trivial

end Role

/-! ## Rules -/

namespace Rule

theorem alike_digits {n : Nat} {t : List Char} (hn : n < 2 ^ 64) (ht : StringText t)
    (hvalue : Json.string t = .ok (toString n, [])) (hnumber : ScalarText (toString n).toList)
    (hstring : ScalarText ('"' :: t)) : (Role.whole .id).Alike
      (.scalar (toString n).toList hnumber) (.scalar ('"' :: t) hstring) := by
  intro depth
  have hword : Json.IsWord n := ⟨by omega, by omega⟩
  have hdigits : toString (n : Int) = toString n := rfl
  have hint := Json.number_int hword Json.stops_nil
  have htext := Json.numberText_int n
  rw [hdigits] at htext
  rw [hdigits, List.append_nil] at hint
  have hread : (Tree.scalar (toString n).toList hnumber).read verbatim depth =
      some (.num (.int n)) := by
    rw [(Decoder.yields_valueWith_number htext).read_eq, Decoder.outcome, hint]
    rfl
  have hread' : (Tree.scalar ('"' :: t) hstring).read verbatim depth =
      some (.str (toString n)) := by
    rw [(Decoder.yields_valueWith_string ht).read_eq, Decoder.outcome, hvalue]
    rfl
  have hid : NodeId.ofJson? (.num (.int n)) = some (toString n) := by
    rw [NodeId.ofJson?, if_pos (Int.natCast_nonneg n), hdigits]
  rw [hread, hread']
  exact .some hid

theorem alike_unknown {role : Role} {gap : Blanks} {name : String} {pre post : List (Member Tree)}
    {m : Member Tree} (hrole : role = .document ∨ role = .node) (hname : m.key.name? = some name)
    (hnew : name ∉ role.fields.map (·.1)) :
    role.Alike (.object gap (pre ++ post)) (.object gap (pre ++ m :: post)) := by
  obtain rfl | rfl := hrole
  · have hnew : name ∉ Graph.record.fields.map (·.name) := hnew
    exact Decoder.same_record_insert Graph.judged hname fun f hf hfname =>
      hnew (List.mem_map.2 ⟨f, hf, hfname⟩)
  · have hnew : name ∉ Node.record.fields.map (·.name) := hnew
    exact Decoder.same_record_insert Node.judged hname fun f hf hfname =>
      hnew (List.mem_map.2 ⟨f, hf, hfname⟩)

/-- Edges whose keys are in order already are the same as a list. -/
theorem same_sorted {gap gap' : Blanks} {ms : List (Member Tree)} {names : List String}
    {its : List (Item Tree)} (hnames : ms.map (·.key.name?) = names.map some)
    (hsorted : names.Pairwise (· < ·)) (hvalues : its.map (·.value) = ms.map (·.value)) :
    Same verbatim Shape.edges.Agree (.object gap ms) (.list gap' its) := by
  intro depth
  cases depth with
  | zero =>
    rw [Decoder.parts_verbatim.shallow _ (by simp), Decoder.parts_verbatim.shallow _ (by simp)]
    exact .none
  | succ depth =>
    rw [Decoder.parts_verbatim.object, Decoder.parts_verbatim.list, hvalues]
    -- To read the members and drop their names is to read their values.
    have hread : ((ms.map Member.entry).mapM (Json.readEntry verbatim depth)).map (List.map (·.2)) =
        (ms.map (·.value)).mapM (Tree.read · verbatim depth) := by
      have hmap : ms.map (·.value) = (ms.map Member.entry).map (·.2) := by
        rw [List.map_map]
        rfl
      rw [hmap]
      refine List.map_mapM_eq fun e he => ?_
      obtain ⟨m, hm, rfl⟩ := List.mem_map.1 he
      have hname : m.key.name? ∈ names.map some := hnames ▸ List.mem_map_of_mem hm
      obtain ⟨name, -, hname⟩ := List.mem_map.1 hname
      rw [Json.readEntry, Member.entry, ← hname, Option.bind_some, Option.map_map]
      exact Option.map_id'
    rw [← hread]
    cases hxs : (ms.map Member.entry).mapM (Json.readEntry verbatim depth) with
    | none => exact .none
    | some xs =>
      have hkeys := Decoder.names_of_readEntries hxs
      rw [List.filterMap_map] at hkeys
      -- The names increase, so the members stand in the order of the list.
      have hincreasing : (xs.map (·.1)).Pairwise (· < ·) := by
        rw [← hkeys]
        exact (List.filterMap_of_map_eq hnames).symm ▸ hsorted
      exact .some (Edge.listOfJson?_of_increasing (List.pairwise_map.1 hincreasing))

theorem alike_keys {gap gap' : Blanks} {ms sorted : List (Member Tree)} {names : List String}
    {its : List (Item Tree)} (hperm : ms.Perm sorted)
    (hnames : sorted.map (·.key.name?) = names.map some) (hsorted : names.Pairwise (· < ·))
    (hvalues : its.map (·.value) = sorted.map (·.value)) :
    (Role.whole .edges).Alike (.object gap ms) (.list gap' its) := by
  have hnodup : (ms.filterMap (·.key.name?)).Nodup := by
    rw [(hperm.filterMap _).nodup_iff, List.filterMap_of_map_eq hnames]
    refine hsorted.imp ?_
    rintro name _ hlt rfl
    exact KeyOrder.irrefl _ hlt
  have hmoved : (Role.whole .edges).Alike (.object gap ms) (.object gap sorted) :=
    Role.alike_perm (by simp) hperm (.inl hnodup) (by simp)
  intro depth
  exact rel_trans (fun _ _ _ h h' => h.trans h') (hmoved depth)
    (same_sorted hnames hsorted hvalues depth)

theorem alike {role : Role} {w w' : Tree} (h : Rule role w w') : role.Alike w w' := by
  cases h with
  | items hrole hvalues =>
    exact Role.alike_of_same hrole fun hD hR => hD.same_list_blanks hR _ _ hvalues
  | members hrole hentries =>
    exact Role.alike_of_same hrole fun hD hR => hD.same_object_blanks hR _ _ hentries
  | perm hrole hperm hnames hfirst => exact Role.alike_perm hrole hperm hnames hfirst
  | digits hn ht hvalue hnumber hstring => exact alike_digits hn ht hvalue hnumber hstring
  | unknown hrole hname hnew => exact alike_unknown hrole hname hnew
  | keys hperm hnames hsorted hvalues =>
    exact alike_keys hperm hnames (hsorted.imp bytes_lt_bytes_iff.1) hvalues

end Rule

theorem Rewrites.alike {role : Role} {w w' : Tree} (h : Rewrites role w w') : role.Alike w w' := by
  induction h with
  | here h => exact h.alike
  | item _ ih => exact Role.alike_item _ ih
  | member _ ih => exact Role.alike_member _ ih

/-! ## Documents -/

namespace Document

/-- The graph in a document is what is made of its value. -/
theorem toOption_parse (d : Document) :
    (Graph.parse d.text).toOption = d.value.read Graph.record.decoder Decoder.maxDepth :=
  Decoder.run_tree (Decoder.local_record Graph.judged) d.before d.value d.after

/-- The documents are the texts in which a value of any kind may be read. -/
theorem exists_text_iff {s : String} :
    (∃ d : Document, d.text = s) ↔ ∃ t, Decoder.run Decoder.raw s = .ok t := by
  constructor
  · rintro ⟨d, rfl⟩
    have h := Decoder.run_tree Decoder.local_raw d.before d.value d.after
    rw [Decoder.read_raw] at h
    exact ⟨_, toOption_eq_some_iff.1 h⟩
  · rintro ⟨t, ht⟩
    obtain ⟨before, w, after, rfl⟩ := (Decoder.takesTrees_raw _).exists_tree ht
    exact ⟨⟨before, w, after⟩, rfl⟩

/-- All conventions mean the same graph: every well-formed text is a document, and documents that
restate each other, in any number of places and in either direction, have the same graph in them, or
both have none. -/
theorem conventions_agree :
    (∀ s : String, (∃ d : Document, d.text = s) ↔ ∃ t, Decoder.run Decoder.raw s = .ok t) ∧
    ∀ {d d' : Document}, Relation.EqvGen Restates d d' →
      (Graph.parse d.text).toOption = (Graph.parse d'.text).toOption := by
  refine ⟨fun s => exists_text_iff, fun h => ?_⟩
  induction h with
  | rel d d' h =>
    rw [toOption_parse, toOption_parse]
    cases h with
    | blanks => rfl
    | value h => exact eq_of_rel (h.alike Decoder.maxDepth)
  | refl d => rfl
  | symm d d' _ ih => exact ih.symm
  | trans d d' d'' _ _ ih ih' => exact ih.trans ih'

end Document

/-! ## Documents without blanks -/

namespace Json

/-- A name as it is usually written. -/
def Key.compact (name : String) : Key where
  lead := .none
  name := name.toList.flatMap escape ++ ['"']
  named := stringText_escape name
  gap := .none

theorem Key.name?_compact (name : String) : (Key.compact name).name? = some name := by
  have hread := string_escape name []
  rw [Key.name?, Decoder.outcome, Key.compact, hread]
  rfl

def Item.compact (value : Tree) : Item Tree := ⟨.none, value, .none⟩

def Member.compact (name : String) (value : Tree) : Member Tree := ⟨.compact value, .compact name⟩

def Tree.null : Tree := .scalar _ .null

def Tree.string (s : String) : Tree := .scalar (quoteChars s) (.string (stringText_escape s))

def Tree.natural (n : Nat) : Tree := .scalar (toString n).toList (.number (numberText_int n))

end Json

theorem Rewrites.compact (role : Role) (name : String) {gap : Blanks} {v v' : Tree}
    (h : Rewrites (role.member (some name)) v v') (pre post : List (Member Tree)) :
    Rewrites role (.object gap (pre ++ .compact name v :: post))
      (.object gap (pre ++ .compact name v' :: post)) := by
  have hmember : Rewrites (role.member (Member.compact name v).key.name?) v v' := by
    have hname : (Member.compact name v).key.name? = some name := Key.name?_compact name
    rwa [hname]
  exact hmember.member

/-- The number of an id may be put in quotes. -/
theorem Rule.quoted {n : Nat} (hn : n < 2 ^ 64) :
    Rule (.whole .id) (.natural n) (.string (toString n)) :=
  .digits hn (Json.stringText_escape _) (Json.string_escape _ []) _ _

namespace Document

/-- A document with these members. -/
def ofMembers (members : List (Member Tree)) : Document := ⟨.none, .object .none members, .none⟩

/-- An edge from the node that this value names. -/
def edgeFrom (source : Tree) : Tree :=
  .object .none [
    .compact "Source" (.object .none [.compact "ID" source, .compact "Output" (.string "o")]),
    .compact "Target" (.object .none [.compact "ID" (.string "t"), .compact "Input" (.string "i")])]

/-- Two edges under keys. -/
def keyed : Document :=
  ofMembers [.compact "Edges" (.object .none [
    .compact "f" (edgeFrom (.natural 1)), .compact "e" (edgeFrom (.natural 2))])]

/-- The same edges in a list. -/
def edgeList (last : Tree) : Tree :=
  .list .none [.compact (edgeFrom (.natural 2)), .compact (edgeFrom last)]

/-- The list in a document with another member, behind a blank. -/
def listed : Document where
  before := ⟨[' '], List.forall_mem_singleton.2 rfl⟩
  value := .object .none [.compact "Version" .null, .compact "Edges" (edgeList (.string "1"))]
  after := .none

/-- From one document to the other it takes several rules. -/
theorem keyed_means_listed : Relation.EqvGen Restates keyed listed ∧
    (Graph.parse keyed.text).toOption.isSome = true ∧
    (Graph.parse keyed.text).toOption = (Graph.parse listed.text).toOption := by
  have hkeys : Restates keyed (ofMembers [.compact "Edges" (edgeList (.natural 1))]) := by
    have hnames : [Key.compact "e", Key.compact "f"].map Key.name? = ["e", "f"].map some := by
      simp [Key.name?_compact]
    have hrule : Rule (.whole .edges) (.object .none [.compact "f" (edgeFrom (.natural 1)),
        .compact "e" (edgeFrom (.natural 2))]) (edgeList (.natural 1)) :=
      .keys (.swap _ _ []) hnames (by decide) rfl
    exact .value (.compact .document "Edges" (.here hrule) [] [])
  have hdigits : Restates (ofMembers [.compact "Edges" (edgeList (.natural 1))])
      (ofMembers [.compact "Edges" (edgeList (.string "1"))]) := by
    have hid : Rewrites (.whole .id) (.natural 1) (.string "1") := .here (.quoted (by decide))
    have hedge : Rewrites (.whole .edge) (edgeFrom (.natural 1)) (edgeFrom (.string "1")) :=
      .compact (.whole .edge) "Source" (.compact (.whole (.tip .source)) "ID" hid [] [_]) [] [_]
    have hitem : Rewrites (.whole .edges) (edgeList (.natural 1)) (edgeList (.string "1")) :=
      @Rewrites.item _ _ [.compact (edgeFrom (.natural 2))] (.compact (edgeFrom (.natural 1))) _ []
        hedge
    exact .value (.compact .document "Edges" hitem [] [])
  have hversion : Restates (ofMembers [.compact "Edges" (edgeList (.string "1"))])
      (ofMembers [.compact "Version" .null, .compact "Edges" (edgeList (.string "1"))]) :=
    .value (.here (@Rule.unknown .document _ "Version" [] [_] _ (.inl rfl)
      (Key.name?_compact "Version") (by decide)))
  have hblanks : Restates (ofMembers [.compact "Version" .null,
      .compact "Edges" (edgeList (.string "1"))]) listed := .blanks _ _
  have h : Relation.EqvGen Restates keyed listed :=
    .trans _ _ _ (.rel _ _ hkeys) (.trans _ _ _ (.rel _ _ hdigits)
      (.trans _ _ _ (.rel _ _ hversion) (.rel _ _ hblanks)))
  exact ⟨h, by decide +kernel, conventions_agree.2 h⟩

/-- A document with one node, whose input is an object with these members. -/
def ofInput (members : List (Member Tree)) : Document :=
  ofMembers [
    .compact "Nodes" (.object .none [.compact "a" (.object .none [
      .compact "Kind" (.string "k"),
      .compact "Inputs" (.object .none [.compact "i" (.object .none members)])])]),
    .compact "Edges" (.list .none [])]

/-- The name of a member, in which an escape stands for no character. -/
def faultyKey : Key where
  lead := .none
  name := ['\\', 'u', 'd', '8', '0', '0', '"']
  named := .unicode (by decide) .quote
  gap := .none

/-- There are other ways to write a document otherwise, and they change what is made of it: members
of an input may change places, so that one that announces an embedded text comes first, and a member
that is no field may have a name with a fault. -/
theorem meaning_changes :
    ((Graph.parse (ofInput [.compact "b" .null,
        .compact Decoder.embeddedName .null]).text).toOption.isSome = true ∧
      (Graph.parse (ofInput [.compact Decoder.embeddedName .null,
        .compact "b" .null]).text).toOption = none) ∧
    ((Graph.parse (ofMembers []).text).toOption.isSome = true ∧
      (Graph.parse (ofMembers [⟨.compact .null, faultyKey⟩]).text).toOption = none) := by
  refine ⟨⟨?_, ?_⟩, ?_, ?_⟩
  · decide +kernel
  · cbv
  · decide +kernel
  · cbv

end Document

end BlockFlow
