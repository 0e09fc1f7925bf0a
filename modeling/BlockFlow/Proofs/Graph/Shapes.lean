import BlockFlow.Graph.Document
import BlockFlow.Proofs.Json.Parts
import BlockFlow.Proofs.Lookup

/-!
# What is made of edges that are decoded whole

Ids and edges are decoded whole before they are judged. What they are judged as depends on where in
the edges they stand (`Shape`), and so does what of a value matters (`Shape.Agree`): of an id it is
the id that it names, of an edge the edge that it describes, and of what nothing looks at nothing
matters.

## Key results

- `Shape.agree_arr`, `Shape.agree_obj`: an item or a member may be exchanged for one that agrees
- `Shape.agree_perm`: the members of an object may change places
-/

namespace BlockFlow

open Json (Number)

/-! ## Records that are decoded already -/

namespace Json

/-- The string that a value is. -/
def str? : Json → Option String
  | .str s => some s
  | _ => none

/-- The value of the only member of this name. -/
def sole? (name : String) (ms : List (String × Json)) : Option Json :=
  (ms.filter fun m => m.1 = name).sole?.map (·.2)

/-- The values of the two fields of a record that is decoded already. -/
def pair? (name name' : String) (v : Json) : Option (Json × Json) :=
  match v.fields? [name, name'] with
  | some [x, y] => some (x, y)
  | _ => none

variable {name name' : String}

theorem fields?_obj (names : List String) (ms : List (String × Json)) :
    (Json.obj ms).fields? names = names.mapM (sole? · ms) := by
  rw [fields?]
  congr 1
  funext name
  rw [sole?]
  generalize ms.filter (fun m => m.1 = name) = ms'
  match ms' with
  | [] | [m] | _ :: _ :: _ => rfl

theorem pair?_obj (ms : List (String × Json)) :
    (Json.obj ms).pair? name name' =
      (sole? name ms).bind fun x => (sole? name' ms).map fun y => (x, y) := by
  rw [pair?, fields?_obj, List.mapM_cons, List.mapM_cons, List.mapM_nil]
  cases sole? name ms <;> cases sole? name' ms <;> rfl

theorem pair?_arr (vs : List Json) :
    (Json.arr vs).pair? name name' = match vs with
      | [x, y] => some (x, y)
      | _ => none := by
  match vs with
  | [] | [x] | [x, y] => rfl
  | x :: y :: z :: vs => simp [pair?, fields?]

variable {R R' : Json → Json → Prop}

theorem rel_sole? {xs ys : List (String × Json)} {key : String} {v v' : Json} (hrefl : ∀ x, R x x)
    (h : key = name → R v v') :
    Option.Rel R (sole? name (xs ++ (key, v) :: ys)) (sole? name (xs ++ (key, v') :: ys)) := by
  simp only [sole?, List.filter_append, List.filter_cons]
  by_cases hkey : key = name
  · simp only [hkey, decide_true, if_true, List.sole?_append_cons]
    split
    · exact .some (h hkey)
    · exact .none
  · simp only [hkey, decide_false, Bool.false_eq_true, if_false]
    exact rel_of_eq hrefl rfl

/-- Two records whose fields agree one by one. -/
def AgreePairs (R R' : Json → Json → Prop) (p p' : Json × Json) : Prop :=
  R p.1 p'.1 ∧ R' p.2 p'.2

theorem rel_pair?_obj {xs ys : List (String × Json)} {key : String} {v v' : Json}
    (hrefl : ∀ x, R x x) (hrefl' : ∀ x, R' x x) (h : key = name → R v v')
    (h' : key = name' → R' v v') :
    Option.Rel (AgreePairs R R') ((Json.obj (xs ++ (key, v) :: ys)).pair? name name')
      ((Json.obj (xs ++ (key, v') :: ys)).pair? name name') := by
  rw [pair?_obj, pair?_obj]
  apply rel_bind (rel_sole? hrefl h)
  intro x x' hx
  exact rel_map (rel_sole? hrefl' h') fun _ _ hy => ⟨hx, hy⟩

theorem rel_pair?_arr {xs ys : List Json} {v v' : Json} (hrefl : ∀ x, R x x)
    (hrefl' : ∀ x, R' x x) (h : xs.length = 0 → R v v') (h' : xs.length = 1 → R' v v') :
    Option.Rel (AgreePairs R R') ((Json.arr (xs ++ v :: ys)).pair? name name')
      ((Json.arr (xs ++ v' :: ys)).pair? name name') := by
  rw [pair?_arr, pair?_arr]
  match xs, ys with
  | [], [] => exact .none
  | [], [y] => exact .some ⟨h rfl, hrefl' y⟩
  | [], _ :: _ :: _ => exact .none
  | [x], [] => exact .some ⟨hrefl x, h' rfl⟩
  | [x], _ :: _ => exact .none
  | _ :: _ :: xs, ys => cases xs <;> exact .none

theorem pair?_perm {ms ms' : List (String × Json)} (h : ms.Perm ms') :
    (Json.obj ms).pair? name name' = (Json.obj ms').pair? name name' := by
  have hsole : ∀ name, sole? name ms = sole? name ms' := by
    intro name
    rw [sole?, sole?, (h.filter _).sole?_eq]
  rw [pair?_obj, pair?_obj, hsole, hsole]

end Json

/-! ## Edges -/

namespace Edge

theorem ofJson?_eq (v : Json) : Edge.ofJson? v = (v.pair? "Source" "Target").bind fun p => do
    let (source, output) ← endOfJson? "Output" p.1
    let (target, input) ← endOfJson? "Input" p.2
    return { source, output, target, input } := by
  rw [ofJson?, Json.pair?]
  generalize v.fields? ["Source", "Target"] = fields
  match fields with
  | none | some [] | some [_] | some [_, _] | some (_ :: _ :: _ :: _) => rfl

theorem endOfJson?_eq (port : String) (v : Json) : endOfJson? port v =
    (v.pair? "ID" port).bind fun p => (p.2.str?).bind fun name =>
      (NodeId.ofJson? p.1).map (·, name) := by
  rw [endOfJson?, Json.pair?]
  generalize v.fields? ["ID", port] = fields
  match fields with
  | none | some [] | some [_] => rfl
  | some [_, y] | some (_ :: y :: _ :: _) => cases y <;> rfl

/-- The edge that a member describes, under its name. -/
def ofMember? (m : String × Json) : Option (String × Edge) := (ofJson? m.2).map (m.1, ·)

theorem listOfJson?_obj (ms : List (String × Json)) : listOfJson? (.obj ms) =
    (ms.mapM ofMember?).map fun es => (SortedMap.ofList es).values := by
  rw [Option.map_eq_bind]
  rfl

theorem names_of_ofMember? {ms : List (String × Json)} {es : List (String × Edge)}
    (h : ms.mapM ofMember? = some es) : es.map (·.1) = ms.map (·.1) := by
  refine List.map_of_mapM_some (fun m e he => ?_) h
  obtain ⟨edge, -, rfl⟩ := Option.map_eq_some_iff.1 he
  rfl

/-- Edges whose names are sorted already are the same as a list. -/
theorem listOfJson?_of_increasing {ms : List (String × Json)} (h : Entries.Increasing ms) :
    listOfJson? (.obj ms) = listOfJson? (.arr (ms.map (·.2))) := by
  have hvalues : (ms.mapM ofMember?).map (List.map (·.2)) = (ms.map (·.2)).mapM ofJson? := by
    refine List.map_mapM_eq fun m _ => ?_
    rw [ofMember?, Option.map_map]
    exact Option.map_id'
  rw [listOfJson?_obj, listOfJson?, ← hvalues]
  cases hread : ms.mapM ofMember? with
  | none => rfl
  | some es =>
    have hnames := names_of_ofMember? hread
    -- Members with increasing names stand as a sorted map has them.
    have hsorted : (es.map (·.1)).Pairwise (· < ·) := by
      rw [hnames]
      exact List.pairwise_map.2 h
    have hes : Entries.Increasing es := List.pairwise_map.1 hsorted
    rw [Option.map_some, Option.map_some, SortedMap.values_ofList_of_increasing hes]

/-- The two ends of an edge. -/
inductive Side where
  | source
  | target

/-- What the output or input is called. -/
def Side.port : Side → String
  | .source => "Output"
  | .target => "Input"

end Edge

/-! ## Shapes -/

/-- What a value is judged as that is decoded whole: all edges, one of them, one of its ends, the
name of an output or input, an id, or nothing that anything looks at. -/
inductive Shape where
  | edges
  | edge
  | tip (side : Edge.Side)
  | port
  | id
  | any

namespace Shape

/-- What the item at this index of a list is judged as. -/
def item : Shape → Nat → Shape
  | .edges, _ => .edge
  | .edge, 0 => .tip .source
  | .edge, 1 => .tip .target
  | .tip _, 0 => .id
  | .tip _, 1 => .port
  | _, _ => .any

/-- What the member of this name is judged as. -/
def member : Shape → String → Shape
  | .edges, _ => .edge
  | .edge, name =>
    if name = "Source" then .tip .source else if name = "Target" then .tip .target else .any
  | .tip side, name => if name = "ID" then .id else if name = side.port then .port else .any
  | .port, _ => .any
  | .id, _ => .any
  | .any, _ => .any

/-- Two values are judged to be the same. -/
def Agree : Shape → Json → Json → Prop
  | .edges, v, v' => Edge.listOfJson? v = Edge.listOfJson? v'
  | .edge, v, v' => Edge.ofJson? v = Edge.ofJson? v'
  | .tip side, v, v' => Edge.endOfJson? side.port v = Edge.endOfJson? side.port v'
  | .port, v, v' => v.str? = v'.str?
  | .id, v, v' => NodeId.ofJson? v = NodeId.ofJson? v'
  | .any, _, _ => True

theorem agree_refl (s : Shape) (v : Json) : s.Agree v v := by cases s <;> simp [Agree]

theorem agree_edge {v v' : Json} (h : Option.Rel (Json.AgreePairs (tip .source).Agree
    (tip .target).Agree) (v.pair? "Source" "Target") (v'.pair? "Source" "Target")) :
    edge.Agree v v' := by
  rw [Agree, Edge.ofJson?_eq, Edge.ofJson?_eq]
  apply eq_of_rel
  apply rel_bind h
  rintro ⟨x, y⟩ ⟨x', y'⟩ ⟨hx, hy⟩
  have hx : Edge.endOfJson? "Output" x = Edge.endOfJson? "Output" x' := hx
  have hy : Edge.endOfJson? "Input" y = Edge.endOfJson? "Input" y' := hy
  simp only [hx, hy]
  exact rel_of_eq (fun _ => rfl) rfl

theorem agree_tip {side : Edge.Side} {v v' : Json} (h : Option.Rel (Json.AgreePairs id.Agree
    port.Agree) (v.pair? "ID" side.port) (v'.pair? "ID" side.port)) :
    (tip side).Agree v v' := by
  rw [Agree, Edge.endOfJson?_eq, Edge.endOfJson?_eq]
  apply eq_of_rel
  apply rel_bind h
  rintro ⟨x, y⟩ ⟨x', y'⟩ ⟨hx, hy⟩
  have hx : NodeId.ofJson? x = NodeId.ofJson? x' := hx
  have hy : y.str? = y'.str? := hy
  simp only [hx, hy]
  exact rel_of_eq (fun _ => rfl) rfl

/-- An item of a list may be exchanged for one that agrees. -/
theorem agree_arr (s : Shape) {xs ys : List Json} {v v' : Json}
    (h : (s.item xs.length).Agree v v') :
    s.Agree (.arr (xs ++ v :: ys)) (.arr (xs ++ v' :: ys)) := by
  cases s with
  | edges =>
    have h : Edge.ofJson? v = Edge.ofJson? v' := h
    simp [Agree, Edge.listOfJson?, h]
  | edge =>
    refine agree_edge (Json.rel_pair?_arr (agree_refl _) (agree_refl _) ?_ ?_) <;>
      (intro hlength; rwa [hlength] at h)
  | tip side =>
    refine agree_tip (Json.rel_pair?_arr (agree_refl _) (agree_refl _) ?_ ?_) <;>
      (intro hlength; rwa [hlength] at h)
  | port => rfl
  | id => rfl
  | any => trivial

/-- A member of an object may be exchanged for one that agrees. -/
theorem agree_obj (s : Shape) {xs ys : List (String × Json)} {name : String} {v v' : Json}
    (h : (s.member name).Agree v v') :
    s.Agree (.obj (xs ++ (name, v) :: ys)) (.obj (xs ++ (name, v') :: ys)) := by
  -- Only an edge and its ends have members that matter.
  cases s with
  | edges =>
    have h : Edge.ofJson? v = Edge.ofJson? v' := h
    simp [Agree, Edge.listOfJson?, h]
  | edge =>
    refine agree_edge (Json.rel_pair?_obj (agree_refl _) (agree_refl _) ?_ ?_)
    · rintro rfl
      exact h
    · rintro rfl
      exact h
  | tip side =>
    refine agree_tip (Json.rel_pair?_obj (agree_refl _) (agree_refl _) ?_ ?_)
    · rintro rfl
      exact h
    · rintro rfl
      cases side <;> exact h
  | port => rfl
  | id => rfl
  | any => trivial

/-- The members of an object may change places, if their names are distinct or nothing looks at
them. -/
theorem agree_perm (s : Shape) {xs ys : List (String × Json)} (hperm : xs.Perm ys)
    (hnames : s ≠ any → (xs.map (·.1)).Nodup) : s.Agree (.obj xs) (.obj ys) := by
  cases s with
  | edges =>
    rw [Agree, Edge.listOfJson?_obj, Edge.listOfJson?_obj]
    have hrel := List.rel_mapM_perm Edge.ofMember? hperm
    generalize hread : xs.mapM Edge.ofMember? = es, ys.mapM Edge.ofMember? = es' at hrel ⊢
    cases hrel with
    | none => rfl
    | some hes =>
      -- What is read from the members has their names, and these are apart.
      have hkeys := Edge.names_of_ofMember? hread
      rw [Option.map_some, Option.map_some, SortedMap.ofList_perm hes (hkeys ▸ hnames (by simp))]
  | edge =>
    exact agree_edge (rel_of_eq (fun p => ⟨agree_refl _ p.1, agree_refl _ p.2⟩)
      (Json.pair?_perm hperm))
  | tip side =>
    exact agree_tip (rel_of_eq (fun p => ⟨agree_refl _ p.1, agree_refl _ p.2⟩)
      (Json.pair?_perm hperm))
  | port => rfl
  | id => rfl
  | any => trivial

end Shape

end BlockFlow
