import BlockFlow.Proofs.Bytes
import BlockFlow.Proofs.Shell.Splitting
import BlockFlow.Shell.Interpreter

/-!
# Words that expand to themselves

A word of a script expands to itself if it is made of text only and what is not quoted in it has no
active character and no backslash. Then there is no home directory to look up, nothing to split at
blanks, and no pattern to match, so that neither the session nor the files have a say.

## Key results

- `Reader.spells_wordWithHomes`: a settled word names no home directories
- `isActive_marks`: a settled word is no pattern
- `fields_solid`: what is not split is one field
- `Expansion.gives_words`: a settled word expands to its own characters, in whatever state
-/

namespace BlockFlow.Shell

/-! ## Settled words -/

/-- Text that is quoted, or in which each character stands for itself. -/
def Part.Settled : Part → Prop
  | .text s quoted => quoted = false → s ≠ "" ∧ ∀ c ∈ s.toList, isActive c = false ∧ c ≠ '\\'
  | _ => False

/-- The characters of a text. -/
def Part.chars : Part → List Char
  | .text s _ => s.toList
  | _ => []

/-- A word that is made of settled text, and its characters. -/
structure Spells (w : Word) (cs : List Char) : Prop where
  settled : ∀ p ∈ w, p.Settled
  spelling : w.flatMap Part.chars = cs
  nonempty : w ≠ []

theorem settled_append {s t : String} {quoted : Bool} (hs : (Part.text s quoted).Settled)
    (ht : (Part.text t quoted).Settled) : (Part.text (s ++ t) quoted).Settled := by
  refine fun hbare => ⟨fun h => (hs hbare).1 (String.append_eq_empty_iff.1 h).1, ?_⟩
  rw [String.toList_append, List.forall_mem_append]
  exact ⟨(hs hbare).2, (ht hbare).2⟩

theorem not_tilde_of_settled {s : String} (h : (Part.text s false).Settled) : '~' ∉ s.toList :=
  fun hmem => absurd ((h rfl).2 '~' hmem).1 (by decide)

/-! ## Home directories -/

namespace Reader

theorem pushPart_cases (s : String) (q : Bool) (before : List Part) :
    pushPart (.text s q) before = .text s q :: before ∨ ∃ t ps, before = .text t q :: ps ∧
      pushPart (.text s q) before = .text (t ++ s) q :: ps := by
  unfold pushPart
  split
  · next t r ps hpush =>
    obtain ⟨rfl, rfl⟩ := hpush
    split
    · next hr => exact .inr ⟨t, ps, by rw [hr], rfl⟩
    · exact .inl rfl
  · exact .inl rfl

theorem pushPart_pushPart (s t : String) (q : Bool) (before : List Part) :
    pushPart (.text t q) (pushPart (.text s q) before) = pushPart (.text (s ++ t) q) before := by
  cases before with
  | nil => simp [pushPart]
  | cons p before =>
    cases p with
    | text u r =>
      by_cases hr : q = r
      · simp [pushPart, hr, String.append_assoc]
      · simp [pushPart, hr]
    | _ => simp [pushPart]

/-- Without a tilde, plain text stays together. -/
theorem homesIn_of_not_tilde {inValue goesOn : Bool} (fuel : Nat) {start : Bool} {c : Char}
    {cs : List Char} {before : List Part} (hfuel : cs.length < fuel) (h : '~' ∉ c :: cs) :
    homesIn inValue goesOn fuel start (c :: cs) before =
      pushPart (.text (String.ofList (c :: cs)) false) before := by
  induction fuel generalizing start c cs before with
  | zero => exact absurd hfuel (Nat.not_lt_zero _)
  | succ fuel ih =>
    have hc : c ≠ '~' := fun hc => h (hc ▸ List.mem_cons_self)
    -- A run goes up to the next colon, where a value may name a directory again.
    obtain ⟨run, rest, hrun, rfl⟩ : ∃ run rest,
        (if c = ':' then [] else cs.takeWhile (· ≠ ':')) = run ∧ cs = run ++ rest := by
      by_cases hcolon : c = ':'
      · exact ⟨[], cs, by rw [if_pos hcolon], rfl⟩
      · exact ⟨_, _, if_neg hcolon, List.takeWhile_append_dropWhile.symm⟩
    rw [homesIn]
    simp only [hc, decide_false, Bool.false_and, Bool.false_eq_true, if_false, hrun,
      List.length_cons, Nat.add_sub_cancel, List.drop_left]
    cases rest with
    | nil =>
      rw [List.append_nil]
      cases fuel <;> rfl
    | cons d rest =>
      rw [ih (by simp at hfuel; omega) fun hmem => h (by simp_all), pushPart_pushPart,
        ← String.ofList_append, List.cons_append]

theorem withHomes_of_settled {inValue : Bool} {w : Word} (h : ∀ p ∈ w, p.Settled) (start : Bool) :
    withHomes inValue start w = w := by
  induction w generalizing start with
  | nil => rfl
  | cons p w ih =>
    obtain ⟨hp, hw⟩ := List.forall_mem_cons.1 h
    cases p with
    | text s q =>
      cases q with
      | true =>
        rw [withHomes, ih hw]
        simp
      | false =>
        rw [withHomes, ih hw]
        obtain ⟨c, cs, hcs⟩ := List.exists_cons_of_ne_nil
          (fun hnil => (hp rfl).1 (String.toList_eq_nil_iff.1 hnil))
        -- Where no tilde stands in front, no home directory is put in.
        have htilde := not_tilde_of_settled hp
        have hlength : s.length = cs.length + 1 := by rw [← String.length_toList, hcs]; rfl
        rw [hcs] at htilde ⊢
        rw [homesIn_of_not_tilde _ (by omega) htilde, ← hcs, String.ofList_toList]
        rfl
    | _ => exact hp.elim

theorem nameAt_append_drop (cs : List Char) : nameAt cs ++ cs.drop (nameAt cs).length = cs := by
  rw [← List.prefix_iff_eq_append]
  cases cs with
  | nil => exact List.prefix_rfl
  | cons c cs =>
    rw [nameAt]
    split
    · exact (List.prefix_cons_inj c).2 (List.takeWhile_prefix _)
    · exact List.nil_prefix

/-- An assignment begins with its name, an equals sign and the plain text at the front of its
value. -/
theorem exists_of_assignment? {w : Word} {name : String} {value : Word}
    (h : assignment? w = some (name, value)) : ∃ front rest,
      w = .text (name ++ "=" ++ String.ofList front) false :: rest ∧
        value = if front.isEmpty then rest else .text (String.ofList front) false :: rest := by
  unfold assignment? at h
  split at h
  · next s rest =>
    dsimp only at h
    split at h
    · next front _ hfront =>
      obtain ⟨rfl, rfl⟩ := Prod.mk.inj (Option.some.inj h)
      have hchars := nameAt_append_drop s.toList
      rw [hfront] at hchars
      have hs : String.ofList (nameAt s.toList) ++ "=" ++ String.ofList front = s :=
        String.toList_inj.1 (by simpa using hchars)
      exact ⟨front, rest, by rw [hs], rfl⟩
    · cases h
  · cases h

/-- A settled word names no home directories, also if it looks like an assignment. -/
theorem spells_wordWithHomes {w : Word} {cs : List Char} (h : Spells w cs) :
    Spells (wordWithHomes w) cs := by
  rw [wordWithHomes]
  cases hassign : assignment? w with
  | none => exact (withHomes_of_settled h.settled true).symm ▸ h
  | some a =>
    obtain ⟨name, value⟩ := a
    obtain ⟨front, rest, rfl, hvalue⟩ := exists_of_assignment? hassign
    obtain ⟨hfront, hrest⟩ := List.forall_mem_cons.1 h.settled
    dsimp only
    cases front with
    | nil =>
      obtain rfl : value = rest := hvalue
      rw [String.ofList_nil, String.append_empty] at h hfront
      rw [withHomes_of_settled hrest]
      split
      · next s rest =>
        -- Here the name and the equals sign join the plain text behind them.
        obtain ⟨hs, hrest⟩ := List.forall_mem_cons.1 hrest
        refine ⟨List.forall_mem_cons.2 ⟨settled_append hfront hs, hrest⟩, ?_, List.cons_ne_nil _ _⟩
        rw [← h.spelling]
        simp [Part.chars]
      · exact h
    | cons c front =>
      obtain rfl : value = .text (String.ofList (c :: front)) false :: rest := hvalue
      have hc : (Part.text (String.ofList (c :: front)) false).Settled := by
        refine fun _ => ⟨by simp, fun d hd => (hfront rfl).2 d ?_⟩
        rw [String.toList_append]
        exact List.mem_append_right _ hd
      rw [withHomes_of_settled (List.forall_mem_cons.2 ⟨hc, hrest⟩)]
      exact h

end Reader

/-! ## Bytes -/

/-- The bytes of a character. -/
def charBytes (c : Char) : Bytes :=
  match Text.byteOf? c with
  | some b => [b]
  | none => String.utf8EncodeChar c

theorem bytesOf_eq (s : String) : bytesOf s = s.toList.flatMap charBytes := by
  have hany : (s.any fun c => (Text.byteOf? c).isSome) =
      s.toList.any fun c => (Text.byteOf? c).isSome := String.contains_bool_eq
  rw [bytesOf, Text.bytes, hany]
  -- A text without stand-ins is encoded as it is, one with them character by character.
  split
  · refine List.flatMap_congr fun c _ => ?_
    have hc := bytes_eq (String.singleton c)
    rw [String.toList_singleton, List.flatMap_singleton] at hc
    rw [charBytes, ← hc]
    rfl
  · next hnone =>
    simp only [List.any_eq_true, not_exists, not_and, Bool.not_eq_true,
      Option.isSome_eq_false_iff, Option.isNone_iff_eq_none] at hnone
    refine (bytes_eq s).trans (List.flatMap_congr fun c hc => ?_)
    rw [charBytes, hnone c hc]

/-- A byte below 0x80 is a character by itself. -/
theorem toNat_of_mem_charBytes {c : Char} {b : UInt8} (hb : b ∈ charBytes c) (hlt : b < 0x80) :
    c.toNat = b.toNat := by
  have hlt : b.toNat < 128 := hlt
  rw [charBytes] at hb
  split at hb
  · next d hd =>
    -- Stand-ins are for the other bytes only.
    obtain rfl := List.mem_singleton.1 hb
    rw [Text.byteOf?] at hd
    split at hd
    · next hrange =>
      rw [Bool.and_eq_true, decide_eq_true_eq, decide_eq_true_eq] at hrange
      rw [← Option.some.inj hd, UInt8.toNat_ofNat'] at hlt
      omega
    · cases hd
  · simp only [String.utf8EncodeChar] at hb
    show c.val.toNat = b.toNat
    split_ifs at hb <;> simp only [List.mem_cons, List.not_mem_nil, or_false] at hb
    · rw [hb, UInt8.toNat_ofNat']
      omega
    · rcases hb with rfl | rfl <;> rw [UInt8.toNat_ofNat'] at hlt <;> omega
    · rcases hb with rfl | rfl | rfl <;> rw [UInt8.toNat_ofNat'] at hlt <;> omega
    · rcases hb with rfl | rfl | rfl | rfl <;> rw [UInt8.toNat_ofNat'] at hlt <;> omega

/-! ## Patterns -/

/-- The marks of a text. -/
def Part.marks : Part → List Mark
  | .text s quoted => marksOf quoted (bytesOf s)
  | _ => []

/-- The bytes with a meaning in patterns: a star, a question mark, a bracket and a backslash. -/
def patternBytes : Bytes := [0x2A, 0x3F, 0x5B, 0x5C]

/-- No mark of a settled part has a meaning in patterns. -/
theorem isBare_of_settled {p : Part} (h : p.Settled) {m : Mark} (hm : m ∈ p.marks) {b : UInt8}
    (hb : b ∈ patternBytes) : m.isBare b = false := by
  cases p with
  | text s quoted =>
    rw [Part.marks, marksOf, List.mem_map] at hm
    obtain ⟨b', hb', rfl⟩ := hm
    rw [Mark.isBare, Bool.and_eq_false_imp]
    intro hbyte
    obtain rfl : b' = b := of_decide_eq_true hbyte
    cases quoted with
    | true => rfl
    | false =>
      rw [bytesOf_eq, List.mem_flatMap] at hb'
      obtain ⟨c, hc, hcb⟩ := hb'
      obtain ⟨hactive, hslash⟩ := (h rfl).2 c hc
      -- The byte is a character of the text, which has none of these characters.
      have hchar : ∀ d : Char, c.toNat = d.toNat → c = d := fun d => Char.toNat_inj.1
      simp only [patternBytes, List.mem_cons, List.not_mem_nil, or_false] at hb
      rcases hb with rfl | rfl | rfl | rfl
      · obtain rfl := hchar '*' (toNat_of_mem_charBytes hcb (by decide))
        cases hactive
      · obtain rfl := hchar '?' (toNat_of_mem_charBytes hcb (by decide))
        cases hactive
      · obtain rfl := hchar '[' (toNat_of_mem_charBytes hcb (by decide))
        cases hactive
      · exact absurd (hchar '\\' (toNat_of_mem_charBytes hcb (by decide))) hslash
  | _ => exact h.elim

theorem settled_eq_self {ms : List Mark} (h : ∀ m ∈ ms, m.isBare 0x5C = false) :
    Pattern.settled ms = ms := by
  fun_induction Pattern.settled ms with
  | case1 => rfl
  | case2 => rfl
  | case3 m n ms hm =>
    -- A backslash without quotes.
    have hbare := h m List.mem_cons_self
    rw [Mark.isBare, hm] at hbare
    cases hbare
  | case4 m n ms hm ih => rw [ih fun m hm => h m (List.mem_cons_of_mem _ hm)]

/-- Settled words are no patterns. -/
theorem isActive_marks {w : Word} (h : ∀ p ∈ w, p.Settled) :
    Pattern.isActive (w.flatMap Part.marks) = false := by
  have hbare : ∀ m ∈ w.flatMap Part.marks, ∀ b ∈ patternBytes, m.isBare b = false := by
    intro m hm b hb
    obtain ⟨p, hp, hmp⟩ := List.mem_flatMap.1 hm
    exact isBare_of_settled (h p hp) hmp hb
  rw [Pattern.isActive, settled_eq_self fun m hm => hbare m hm _ (by decide), List.any_eq_false]
  intro m hm
  simp [hbare m hm 0x2A (by decide), hbare m hm 0x3F (by decide), hbare m hm 0x5B (by decide)]

theorem plain_marks {w : Word} (h : ∀ p ∈ w, p.Settled) :
    plain (w.flatMap Part.marks) = bytesOf (String.ofList (w.flatMap Part.chars)) := by
  rw [plain, List.map_flatMap, bytesOf_eq, String.toList_ofList, List.flatMap_assoc]
  refine List.flatMap_congr fun p hp => ?_
  cases p with
  | text s quoted => simp [Part.marks, Part.chars, marksOf, bytesOf_eq, Function.comp_def]
  | _ => exact (h _ hp).elim

/-! ## Fields -/

theorem foldl_solid (s : Separators) (f : Fields) (acc : List Mark) (mss : List (List Mark)) :
    (mss.map Chunk.solid).foldl (Fields.addChunk s) { f with current := some acc } =
      { f with current := some (mss.flatten.reverse ++ acc) } := by
  induction mss generalizing acc with
  | nil => rfl
  | cons ms mss ih =>
    rw [List.map_cons, List.foldl_cons]
    exact (ih _).trans (by simp)

/-- What is not split is one field. -/
theorem fields_solid (s : Separators) {mss : List (List Mark)} (h : mss ≠ []) :
    fields s (mss.map Chunk.solid) = [mss.flatten] := by
  cases mss with
  | nil => exact absurd rfl h
  | cons ms mss =>
    rw [fields, List.map_cons, List.foldl_cons]
    have hfold : (mss.map Chunk.solid).foldl (Fields.addChunk s)
        (Fields.addChunk s {} (.solid ms)) =
          { current := some (mss.flatten.reverse ++ (ms.reverse ++ [])) } := foldl_solid s {} _ mss
    rw [hfold]
    simp [Fields.close]

/-! ## Expansions -/

namespace Sh

variable {α β : Type} {m : Sh α} {f : α → Sh β} {a : α} {b : β}

/-- A computation that comes to this in any state, and changes nothing. -/
def Gives (m : Sh α) (a : α) : Prop :=
  ∀ session system, m session system = .done system (.ok a, session)

theorem bind_of_done {session : Session} {system : System}
    (h : m session system = .done system (.ok a, session)) :
    (m >>= f) session system = f a session system := by
  show (m session system).bind _ = _
  rw [h]
  rfl

theorem gives_pure (a : α) : Gives (pure a) a := fun _ _ => rfl

theorem Gives.bind (hm : Gives m a) (hf : Gives (f a) b) : Gives (m >>= f) b := by
  intro session system
  rw [bind_of_done (hm session system)]
  exact hf session system

end Sh

namespace Expansion

theorem gives_wordChunks (run : Runner) {u : Use} (hu : u.looseText = false) {w : Word}
    (h : ∀ p ∈ w, p.Settled) :
    Sh.Gives (wordChunks run u w) ((w.map Part.marks).map Chunk.solid) := by
  induction w with
  | nil => exact Sh.gives_pure _
  | cons p w ih =>
    obtain ⟨hp, hw⟩ := List.forall_mem_cons.1 h
    cases p with
    | text s quoted =>
      rw [wordChunks, partChunks, hu, Bool.false_and, if_neg Bool.false_ne_true]
      exact (Sh.gives_pure _).bind ((ih hw).bind (Sh.gives_pure _))
    | _ => exact hp.elim

/-- A settled word expands to its own characters, whatever the state of the session and of the
files. -/
theorem gives_words (run : Runner) {w : Word} {cs : List Char} (h : Spells w cs) :
    Sh.Gives (words run w) [bytesOf (String.ofList cs)] := by
  rw [words]
  refine (gives_wordChunks run rfl h.settled).bind fun session system => ?_
  obtain ⟨seps, hseps⟩ : ∃ seps, separators session system = .done system (.ok seps, session) :=
    ⟨_, rfl⟩
  have hfields : fields ⟨seps⟩ ((w.map Part.marks).map Chunk.solid) = [w.flatMap Part.marks] := by
    rw [fields_solid _ (by simpa using h.nonempty), List.flatMap_def]
  -- No part is active, so that the pattern is the word itself.
  have hglob : globbed session system.files (w.flatMap Part.marks) =
      [bytesOf (String.ofList cs)] := by
    rw [globbed, isActive_marks h.settled, Bool.not_false, Bool.or_true, if_pos rfl,
      plain_marks h.settled, h.spelling]
  have hget : (get : Sh Session) session system = .done system (.ok session, session) := rfl
  have hfiles : files session system = .done system (.ok system.files, session) := rfl
  rw [Sh.bind_of_done hget, Sh.bind_of_done hseps, Sh.bind_of_done hfiles, hfields,
    List.flatMap_singleton, hglob]
  rfl

/-- So does the value of an assignment. -/
theorem gives_assigned (run : Runner) {w : Word} {cs : List Char} (h : Spells w cs) :
    Sh.Gives (assigned run w) (bytesOf (String.ofList cs)) := by
  have hjoined : Chunk.joined ((w.map Part.marks).map Chunk.solid) = w.flatMap Part.marks := by
    rw [Chunk.joined, List.map_map, List.flatMap_map]
    rfl
  rw [assigned]
  refine (gives_wordChunks run rfl h.settled).bind ?_
  rw [hjoined, plain_marks h.settled, h.spelling]
  exact Sh.gives_pure _

end Expansion

end BlockFlow.Shell
