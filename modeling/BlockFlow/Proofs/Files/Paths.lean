import Mathlib.Data.List.Basic
import BlockFlow.Files.Tree

/-!
# Paths that end with a plain name

The files of a run are named by a directory and one more name. Such a path goes through the
steps of the directory and then takes the name, whether or not the directory ends with a
slash.

## Key results

- `pieces_join`: the steps of a joined path
- `pieces_eq`: a path goes through its steps
- `fileName?_join`: the last name of a joined path
-/

namespace BlockFlow

namespace Path

/-! ## Splitting -/

private theorem splitOn_ne_nil (sep : Char) (cs : List Char) : splitOn sep cs ≠ [] := by
  cases cs with
  | nil => simp [splitOn]
  | cons c cs =>
    rw [splitOn]
    split
    · simp
    · split <;> simp

private theorem splitOn_of_not_mem {sep : Char} {ns : List Char} (h : sep ∉ ns) :
    splitOn sep ns = [ns] := by
  induction ns with
  | nil => rfl
  | cons c cs ih =>
    have hc : c ≠ sep := fun hc => h (by simp [hc])
    have hcs : sep ∉ cs := fun hcs => h (List.mem_cons_of_mem _ hcs)
    rw [splitOn, if_neg hc, ih hcs]

/-- A separator ends the pieces in front of it. -/
private theorem splitOn_append (sep : Char) (cs ds : List Char) :
    splitOn sep (cs ++ sep :: ds) = splitOn sep cs ++ splitOn sep ds := by
  induction cs with
  | nil => exact if_pos rfl
  | cons c cs ih =>
    rw [List.cons_append, splitOn, splitOn]
    by_cases hc : c = sep
    · rw [if_pos hc, if_pos hc, ih]
      rfl
    · rw [if_neg hc, if_neg hc, ih]
      cases hcs : splitOn sep cs with
      | nil => exact absurd hcs (splitOn_ne_nil sep cs)
      | cons piece pieces => rfl

/-- The last piece is what follows the last separator. -/
private theorem splitOn_concat {sep : Char} {ns : List Char} (h : sep ∉ ns) (cs : List Char) :
    splitOn sep (cs ++ sep :: ns) = splitOn sep cs ++ [ns] := by
  rw [splitOn_append, splitOn_of_not_mem h]

/-- No piece holds a separator. -/
private theorem not_mem_of_mem_splitOn {sep : Char} {cs ns : List Char} (h : ns ∈ splitOn sep cs) :
    sep ∉ ns := by
  induction cs generalizing ns with
  | nil =>
    obtain rfl := List.mem_singleton.1 h
    exact List.not_mem_nil
  | cons c cs ih =>
    rw [splitOn] at h
    -- A separator begins a new piece; any other character goes in front of the first one.
    split at h
    · rcases List.mem_cons.1 h with rfl | h
      · exact List.not_mem_nil
      · exact ih h
    · next hc =>
      split at h
      · next hnil => exact absurd hnil (splitOn_ne_nil sep cs)
      · next piece pieces hcons =>
        rcases List.mem_cons.1 h with rfl | h
        · rw [List.mem_cons, not_or]
          exact ⟨fun heq => hc heq.symm, ih (hcons ▸ List.mem_cons_self)⟩
        · exact ih (hcons ▸ List.mem_cons_of_mem _ h)

theorem not_mem_of_mem_names {p : Path} {n : String} (h : n ∈ p.names) : '/' ∉ n.toList := by
  obtain ⟨cs, hcs, rfl⟩ := List.mem_map.1 (List.mem_filter.1 h).1
  rw [String.toList_ofList]
  exact not_mem_of_mem_splitOn hcs

/-- The first piece is what comes before the first separator. -/
private theorem splitOn_append_cons {sep : Char} {ns : List Char} (h : sep ∉ ns)
    (cs : List Char) : splitOn sep (ns ++ sep :: cs) = ns :: splitOn sep cs := by
  induction ns with
  | nil => exact if_pos rfl
  | cons c ns ih =>
    rw [List.mem_cons, not_or] at h
    rw [List.cons_append, splitOn, if_neg (fun hc => h.1 hc.symm), ih h.2]

/-- Pieces with separators between them are the pieces of the whole. -/
private theorem splitOn_intercalate {sep : Char} {nss : List (List Char)}
    (h : ∀ ns ∈ nss, sep ∉ ns) (hne : nss ≠ []) : splitOn sep ([sep].intercalate nss) = nss := by
  induction nss with
  | nil => exact absurd rfl hne
  | cons ns nss ih =>
    have hns : sep ∉ ns := h ns List.mem_cons_self
    cases nss with
    | nil =>
      rw [List.intercalate_singleton]
      exact splitOn_of_not_mem hns
    | cons ms nss =>
      rw [List.intercalate_cons_cons, List.append_assoc, List.singleton_append,
        splitOn_append_cons hns, ih (fun ns' hns' => h ns' (List.mem_cons_of_mem _ hns')) (by simp)]

/-- The pieces of the path from the root through these names. -/
theorem pieces_rooted {ns : List String} (h : ∀ n ∈ ns, '/' ∉ n.toList) (hne : ns ≠ []) :
    pieces ("/" ++ "/".intercalate ns) = "" :: ns := by
  have hlist : ("/" ++ "/".intercalate ns).toList =
      ['/'].intercalate ([] :: ns.map String.toList) := by
    obtain ⟨n, ns, rfl⟩ := List.exists_cons_of_ne_nil hne
    rw [String.toList_append, String.toList_intercalate, List.map_cons,
      List.intercalate_cons_cons]
    rfl
  rw [pieces, hlist, splitOn_intercalate ?_ (by simp), List.map_cons, List.map_map]
  · simp [Function.comp_def]
  · intro cs hcs
    rcases List.mem_cons.1 hcs with rfl | hcs
    · exact List.not_mem_nil
    · obtain ⟨n, hn, rfl⟩ := List.mem_map.1 hcs
      exact h n hn

/-! ## Steps and plain names -/

/-- The pieces of a path, without the empty one after a last slash. -/
def steps (p : Path) : List String :=
  if p.endsWithSlash then p.pieces.dropLast else p.pieces

/-- A name that stands for an entry of its directory. -/
structure Plain (n : String) : Prop where
  ne_empty : n ≠ ""
  ne_dot : n ≠ "."
  ne_dots : n ≠ ".."
  noSlash : '/' ∉ n.toList

theorem Plain.toList_ne_nil {n : String} (h : Plain n) : n.toList ≠ [] := by
  intro hnil
  exact h.ne_empty (String.toList_eq_nil_iff.1 hnil)

theorem Plain.isAbsolute {n : String} (h : Plain n) : isAbsolute n = false := by
  have hn := h.noSlash
  unfold Path.isAbsolute
  cases hl : n.toList with
  | nil => rfl
  | cons c cs =>
    rw [hl] at hn
    have hc : c ≠ '/' := fun hc => hn (by simp [hc])
    simpa using hc

private theorem toList_of_endsWithSlash {p : Path} (h : p.endsWithSlash = true) :
    ∃ cs, p.toList = cs ++ ['/'] := by
  have h : p.toList.getLast? = some '/' := by simpa [endsWithSlash] using h
  exact List.getLast?_eq_some_iff.1 h

private theorem splitOn_of_endsWithSlash {p : Path} {cs : List Char}
    (h : p.toList = cs ++ ['/']) : splitOn '/' p.toList = splitOn '/' cs ++ [[]] := by
  rw [h]
  exact splitOn_concat List.not_mem_nil cs

/-- A path goes through its steps, and then perhaps through an empty piece. -/
theorem pieces_eq (p : Path) : p.pieces = steps p ∨ p.pieces = steps p ++ [""] := by
  unfold steps
  by_cases hslash : p.endsWithSlash = true
  · obtain ⟨cs, hcs⟩ := toList_of_endsWithSlash hslash
    rw [if_pos hslash, pieces, splitOn_of_endsWithSlash hcs, List.map_append, List.map_singleton,
      List.dropLast_concat]
    exact .inr rfl
  · rw [if_neg hslash]
    exact .inl rfl

theorem join_of_plain {n : String} (hn : Plain n) {p : Path} (hp : p ≠ "") :
    join p n = if p.endsWithSlash then p ++ n else p ++ "/" ++ n := by
  unfold join
  rw [hn.isAbsolute]
  by_cases hslash : p.endsWithSlash = true <;> simp [hp, hslash]

/-- A joined path takes the steps of the directory and then the name. -/
theorem pieces_join {n : String} (hn : Plain n) {p : Path} (hp : p ≠ "") :
    (join p n).pieces = steps p ++ [n] := by
  rw [join_of_plain hn hp, steps]
  by_cases hslash : p.endsWithSlash = true
  · obtain ⟨cs, hcs⟩ := toList_of_endsWithSlash hslash
    rw [if_pos hslash, if_pos hslash, pieces, pieces, String.toList_append,
      splitOn_of_endsWithSlash hcs, hcs, List.append_assoc, List.singleton_append,
      splitOn_concat hn.noSlash]
    simp
  · rw [if_neg hslash, if_neg hslash, pieces, pieces, String.toList_append, String.toList_append,
      List.append_assoc, show "/".toList = ['/'] from rfl, List.singleton_append,
      splitOn_concat hn.noSlash]
    simp

private theorem splitOn_append_replicate (sep : Char) (cs : List Char) (j : Nat) :
    splitOn sep (cs ++ List.replicate j sep) = splitOn sep cs ++ List.replicate j [] := by
  induction j with
  | zero => simp
  | succ j ih =>
    rw [List.replicate_succ', ← List.append_assoc, splitOn_concat List.not_mem_nil, ih,
      List.append_assoc, ← List.replicate_succ']

private theorem toList_withoutSlashes {p : Path} (h : FileTree.withoutSlashes p ≠ "/") :
    (FileTree.withoutSlashes p).toList = (p.toList.reverse.dropWhile (· = '/')).reverse := by
  unfold FileTree.withoutSlashes at h ⊢
  cases hcs : p.toList.reverse.dropWhile (· = '/') with
  | nil =>
    rw [hcs] at h
    by_cases hempty : p = ""
    · simp [hempty]
    · simp [hempty] at h
  | cons c cs => simp

/-- Slashes at the end of a path only add empty pieces. -/
theorem pieces_withoutSlashes {p : Path} (h : FileTree.withoutSlashes p ≠ "/") :
    ∃ j, p.pieces = (FileTree.withoutSlashes p).pieces ++ List.replicate j "" := by
  have hsplit := List.takeWhile_append_dropWhile (p := fun c => decide (c = '/'))
    (l := p.toList.reverse)
  obtain ⟨j, hj⟩ : ∃ j, p.toList.reverse.takeWhile (· = '/') = List.replicate j '/' := by
    refine ⟨_, List.eq_replicate_of_mem (fun c hc => ?_)⟩
    simpa using List.all_eq_true.1 (List.all_takeWhile (l := p.toList.reverse)) c hc
  have hlist : p.toList = (p.toList.reverse.dropWhile (· = '/')).reverse ++
      List.replicate j '/' := by
    conv => lhs; rw [← List.reverse_reverse p.toList, ← hsplit]
    rw [hj, List.reverse_append, List.reverse_replicate]
  refine ⟨j, ?_⟩
  rw [pieces, pieces, toList_withoutSlashes h]
  conv => lhs; rw [hlist]
  rw [splitOn_append_replicate, List.map_append, List.map_replicate]

/-! ## Joined paths -/

variable {n : String} {p : Path}

private theorem getLast?_join (hn : Plain n) (hp : p ≠ "") :
    (join p n).toList.getLast? = n.toList.getLast? := by
  rw [join_of_plain hn hp]
  have hlast : n.toList.getLast?.isSome = true := by
    rw [List.getLast?_eq_some_getLast hn.toList_ne_nil]
    rfl
  split <;> simp only [String.toList_append, List.getLast?_append] <;>
    rw [Option.or_of_isSome hlast]

theorem endsWithSlash_join (hn : Plain n) (hp : p ≠ "") : (join p n).endsWithSlash = false := by
  unfold endsWithSlash
  rw [getLast?_join hn hp]
  have : n.toList.getLast? ≠ some '/' := fun h => hn.noSlash (List.mem_of_getLast? h)
  simpa using this

theorem steps_join (hn : Plain n) (hp : p ≠ "") : steps (join p n) = steps p ++ [n] := by
  rw [steps, endsWithSlash_join hn hp, ← pieces_join hn hp]
  rfl

theorem join_ne_empty (hn : Plain n) (hp : p ≠ "") : join p n ≠ "" := by
  intro h
  have hlast := getLast?_join hn hp
  rw [h] at hlast
  exact hn.toList_ne_nil (List.getLast?_eq_none_iff.1 hlast.symm)

theorem withoutSlashes_join (hn : Plain n) (hp : p ≠ "") :
    FileTree.withoutSlashes (join p n) = join p n := by
  have hslash := endsWithSlash_join hn hp
  have hne := join_ne_empty hn hp
  generalize join p n = q at hslash hne
  unfold FileTree.withoutSlashes
  -- There is no slash at the end to be dropped.
  have hhead : q.toList.reverse.dropWhile (· = '/') = q.toList.reverse := by
    cases hq : q.toList.reverse with
    | nil => rfl
    | cons c cs =>
      have hlast : q.toList.getLast? = some c := by
        rw [← List.head?_reverse, hq]; rfl
      have hc : c ≠ '/' := by
        intro hc
        simp [endsWithSlash, hlast, hc] at hslash
      rw [List.dropWhile_cons_of_neg (by simpa using hc)]
  rw [hhead]
  cases hq : q.toList.reverse with
  | nil =>
    rw [List.reverse_eq_nil_iff, String.toList_eq_nil_iff] at hq
    exact absurd hq hne
  | cons c cs =>
    show String.ofList (c :: cs).reverse = q
    rw [← hq, List.reverse_reverse, String.ofList_toList]

/-- The names of a path are its steps, without those that count for nothing. -/
theorem names_eq (p : Path) : p.names = (steps p).filter (fun n => n ≠ "" && n ≠ ".") := by
  rw [names]
  rcases pieces_eq p with hpieces | hpieces
  · rw [hpieces]
  · rw [hpieces, List.filter_append]
    simp

/-- What is joined to a directory lies directly in it. -/
theorem names_join (hn : Plain n) (p : Path) : (join p n).names = p.names ++ [n] := by
  have hfilter : [n].filter (fun n => n ≠ "" && n ≠ ".") = [n] := by
    simp [hn.ne_empty, hn.ne_dot]
  by_cases hp : p = ""
  · subst hp
    have hjoin : join "" n = n := by simp [join, hn.isAbsolute]
    rw [hjoin, names, pieces, splitOn_of_not_mem hn.noSlash, List.map_singleton,
      String.ofList_toList, hfilter]
    rfl
  · rw [names, pieces_join hn hp, List.filter_append, hfilter, names_eq]

/-- A path that is seen from a directory goes through the names of both. -/
theorem names_join_relative {q : Path} (hq : q.isAbsolute = false) (p : Path) :
    (join p q).names = p.names ++ q.names := by
  have hpieces : ∀ (a b : Path) (cs : List Char), a.toList = cs ++ '/' :: b.toList →
      a.names = ((splitOn '/' cs).map String.ofList).filter (fun n => n ≠ "" && n ≠ ".") ++
        b.names := by
    intro a b cs h
    rw [names, names, pieces, pieces, h, splitOn_append, List.map_append, List.filter_append]
  unfold join
  rw [hq, if_neg Bool.false_ne_true]
  split
  · next h =>
    rw [Bool.or_eq_true, decide_eq_true_eq] at h
    rcases h with rfl | hslash
    · rw [String.empty_append]
      rfl
    · -- The last slash of the directory parts the two.
      obtain ⟨cs, hcs⟩ := toList_of_endsWithSlash hslash
      rw [hpieces (p ++ q) q cs (by rw [String.toList_append, hcs]; simp),
        names_eq p, steps, if_pos hslash, pieces, splitOn_of_endsWithSlash hcs, List.map_append,
        List.map_singleton, List.dropLast_concat]
  · rw [hpieces (p ++ "/" ++ q) q p.toList (by simp)]
    rfl

theorem isAbsolute_join_relative {q : Path} (hq : q.isAbsolute = false) (p : Path) :
    (join p q).isAbsolute = p.isAbsolute := by
  unfold join
  rw [hq, if_neg Bool.false_ne_true]
  by_cases hp : p = ""
  · subst hp
    rw [if_pos (by simp), String.empty_append, hq]
    rfl
  · obtain ⟨c, cs, hcs⟩ := List.exists_cons_of_ne_nil (mt String.toList_eq_nil_iff.1 hp)
    split <;> simp [isAbsolute, hcs]

/-- Different names make different paths in a directory. -/
theorem join_inj {n' : String} (hn : Plain n) (hn' : Plain n') (p : Path)
    (h : join p n = join p n') : n = n' := by
  have hnames := names_join hn p
  rw [h, names_join hn' p] at hnames
  simpa using hnames.symm

/-- The last name of a joined path. -/
theorem fileName?_join (hn : Plain n) (p : Path) : fileName? (join p n) = some n := by
  have hlast : (join p n).names.getLast? = some n := by
    rw [names_join hn, List.getLast?_concat]
  unfold fileName?
  rw [hlast]
  split
  · next h => exact absurd (Option.some.inj h) hn.ne_dots
  · rfl

/-- The names of equal length in one directory give paths of equal length. -/
theorem utf8ByteSize_join (hn : Plain n) (hp : p ≠ "") :
    (join p n).utf8ByteSize = p.utf8ByteSize + (if p.endsWithSlash then 0 else 1) +
      n.utf8ByteSize := by
  rw [join_of_plain hn hp]
  split
  · rw [String.utf8ByteSize_append]
    omega
  · rw [String.utf8ByteSize_append, String.utf8ByteSize_append]
    rfl

theorem mem_join (hn : Plain n) (hp : p ≠ "") {c : Char} (hc : c ≠ '/') :
    c ∈ (join p n).toList ↔ c ∈ p.toList ∨ c ∈ n.toList := by
  rw [join_of_plain hn hp]
  split
  · rw [String.toList_append, List.mem_append]
  · rw [String.toList_append, String.toList_append, List.mem_append, List.mem_append]
    simp [hc]

end Path

end BlockFlow
