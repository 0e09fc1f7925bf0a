import BlockFlow.Proofs.Json.Floats
import BlockFlow.Proofs.Json.Strings

/-!
# The texts that are skipped

A run that skips a value is in a state inside of some open containers. `Round` says what one round
does (`Round.skipRun`, `exists_round`), and `RestText` what a run still demands of the text, round
by round. A run that ends has come over such a text (`exists_restText`), and comes over the same
text whatever stands behind it, if only a number ends there (`RestText.skipRun`). So a raw value is
the same text again wherever it is written.

## Key results

- `IsRaw.rawValue`, `isRaw_of_rawValue`: raw values are what is read as a raw value
-/

namespace BlockFlow.Json

/-! ## Blanks and literals -/

theorem skipBlanks_cons {c : Char} {cs : List Char} :
    skipBlanks (c :: cs) = if isBlank c = true then skipBlanks cs else c :: cs := by
  simp [skipBlanks, List.dropWhile_cons]

theorem skipBlanks_append {bs : List Char} (h : ∀ b ∈ bs, isBlank b = true) (cs : List Char) :
    skipBlanks (bs ++ cs) = skipBlanks cs := List.dropWhile_append_of_pos h

/-- The blanks that are skipped. -/
theorem exists_blanks (cs : List Char) :
    ∃ bs, cs = bs ++ skipBlanks cs ∧ ∀ b ∈ bs, isBlank b = true := by
  exact ⟨cs.takeWhile isBlank, List.takeWhile_append_dropWhile.symm,
    fun _ => List.mem_takeWhile_imp⟩

/-- What is left when blanks are skipped begins with none. -/
theorem isBlank_of_skipBlanks {cs r : List Char} {c : Char} (h : skipBlanks cs = c :: r) :
    isBlank c = false := by
  have hhead := List.head?_dropWhile_not isBlank cs
  rw [skipBlanks] at h
  simpa [h] using hhead

theorem literal_append (name rest : List Char) : literal name (name ++ rest) = .ok rest := by
  induction name with
  | nil => rfl
  | cons c name ih => simp [literal, ih]

theorem eq_of_literal {name cs rest : List Char} (h : literal name cs = .ok rest) :
    cs = name ++ rest := by
  induction name generalizing cs with
  | nil => exact Except.ok.inj h
  | cons c name ih =>
    cases cs with
    | nil => cases h
    | cons d cs =>
      rw [literal] at h
      split at h
      · next hc => rw [hc, ih h, List.cons_append]
      · cases h

/-! ## Scalars -/

/-- A text that begins with a character that is neither blank nor a bracket. -/
def Opens (t : List Char) : Prop :=
  ∃ c cs, t = c :: cs ∧ isBlank c = false ∧ c ≠ '[' ∧ c ≠ ']' ∧ c ≠ '{' ∧ c ≠ '}'

/-- A text that begins like a value: with a character that is neither blank nor closes a list. -/
def Fronted (t : List Char) : Prop := ∃ c cs, t = c :: cs ∧ isBlank c = false ∧ c ≠ ']'

theorem Opens.fronted {t : List Char} (h : Opens t) : Fronted t := by
  obtain ⟨c, cs, ht, hblank, -, hclose, -⟩ := h
  exact ⟨c, cs, ht, hblank, hclose⟩

theorem Fronted.skipBlanks {t : List Char} (h : Fronted t) (rest : List Char) :
    skipBlanks (t ++ rest) = t ++ rest := by
  obtain ⟨c, cs, rfl, hblank, -⟩ := h
  simp [skipBlanks_cons, hblank]

/-- The texts of values that are no containers. -/
inductive ScalarText : List Char → Prop
  | null : ScalarText ['n', 'u', 'l', 'l']
  | true : ScalarText ['t', 'r', 'u', 'e']
  | false : ScalarText ['f', 'a', 'l', 's', 'e']
  | number {t : List Char} (ht : NumberText t) : ScalarText t
  | string {t : List Char} (ht : StringText t) : ScalarText ('"' :: t)

/-- The first character of a number without a sign. -/
theorem UnsignedText.isDigit {c : Char} {cs : List Char} (h : UnsignedText (c :: cs)) :
    isDigit c = true := by
  cases h with
  | zero => rfl
  | digits hd => exact hd

/-- A character that a number may begin with. -/
theorem NumberText.head {t : List Char} (h : NumberText t) :
    ∃ c cs, t = c :: cs ∧ (c = '-' ∨ Json.isDigit c = true) := by
  cases h with
  | positive ht =>
    cases ht with
    | zero => exact ⟨'0', _, rfl, .inr rfl⟩
    | digits hd => exact ⟨_, _, rfl, .inr hd⟩
  | negative => exact ⟨'-', _, rfl, .inl rfl⟩

theorem ne_of_isDigit {c d : Char} (h : isDigit c = true) (hd : isDigit d = false) : c ≠ d := by
  rintro rfl
  rw [h] at hd
  cases hd

theorem isBlank_of_isDigit {c : Char} (h : isDigit c = true) : isBlank c = false := by
  have hne : ∀ d, isDigit d = false → c ≠ d := fun d => ne_of_isDigit h
  simp [isBlank, hne ' ' rfl, hne '\t' rfl, hne '\n' rfl, hne '\r' rfl]

theorem NumberText.opens {t : List Char} (h : NumberText t) : Opens t := by
  obtain ⟨c, cs, rfl, rfl | hc⟩ := h.head
  · exact ⟨'-', cs, rfl, by decide⟩
  · have hne : ∀ d, Json.isDigit d = false → c ≠ d := fun d => ne_of_isDigit hc
    exact ⟨c, cs, rfl, isBlank_of_isDigit hc, hne _ rfl, hne _ rfl, hne _ rfl, hne _ rfl⟩

theorem ScalarText.opens {t : List Char} (h : ScalarText t) : Opens t := by
  cases h with
  | null => exact ⟨'n', _, rfl, by decide⟩
  | true => exact ⟨'t', _, rfl, by decide⟩
  | false => exact ⟨'f', _, rfl, by decide⟩
  | number ht => exact ht.opens
  | string => exact ⟨'"', _, rfl, by decide⟩

theorem ScalarText.skip {c : Char} {cs rest : List Char} (h : ScalarText (c :: cs))
    (hr : Stops rest) : skipScalar c (cs ++ rest) = .ok rest := by
  cases h with
  | null => exact literal_append _ rest
  | true => exact literal_append _ rest
  | false => exact literal_append _ rest
  | string ht => exact ht.skip rest
  | number ht =>
    cases ht with
    | negative ht => exact ht.skip hr
    | positive ht =>
      have hc := ht.isDigit
      have hne : ∀ d, isDigit d = Bool.false → c ≠ d := fun d => ne_of_isDigit hc
      have hskip := ht.skip hr
      rw [List.cons_append] at hskip
      simp [skipScalar, hne 'n' rfl, hne 't' rfl, hne 'f' rfl, hne '-' rfl, hc, hskip]

theorem exists_scalarText {c : Char} {cs rest : List Char} (h : skipScalar c cs = .ok rest) :
    ∃ t, c :: cs = t ++ rest ∧ ScalarText t := by
  -- The first character decides which scalar is skipped.
  rw [skipScalar] at h
  split at h
  · next hc => exact ⟨_, by rw [hc, eq_of_literal h]; rfl, .null⟩
  split at h
  · next hc => exact ⟨_, by rw [hc, eq_of_literal h]; rfl, .true⟩
  split at h
  · next hc => exact ⟨_, by rw [hc, eq_of_literal h]; rfl, .false⟩
  split at h
  · next hc =>
    obtain ⟨t, rfl, ht⟩ := exists_unsignedText h
    exact ⟨'-' :: t, by rw [hc]; rfl, .number (.negative ht)⟩
  split at h
  · obtain ⟨t, ht, htext⟩ := exists_unsignedText h
    exact ⟨t, ht, .number (.positive htext)⟩
  split at h
  · next hc =>
    obtain ⟨t, rfl, ht⟩ := exists_stringText h
    exact ⟨'"' :: t, by rw [hc]; rfl, .string ht⟩
  · cases h

/-! ## Names of members -/

/-- The text of a member's name with its colon, and blanks around. -/
inductive KeyText : List Char → Prop
  | mk {bs name bs' : List Char} (hbs : ∀ b ∈ bs, isBlank b = true) (hname : StringText name)
      (hbs' : ∀ b ∈ bs', isBlank b = true) : KeyText (bs ++ '"' :: (name ++ (bs' ++ [':'])))

theorem KeyText.skip {t : List Char} (h : KeyText t) (rest : List Char) :
    skipKey (t ++ rest) = .ok rest := by
  obtain ⟨hbs, hname, hbs'⟩ := h
  have hquote : isBlank '"' = false := rfl
  have hcolon : isBlank ':' = false := rfl
  simp [skipKey, skipBlanks_append hbs, skipBlanks_append hbs', skipBlanks_cons, hquote, hcolon,
    hname.skip]

theorem exists_keyText {cs rest : List Char} (h : skipKey cs = .ok rest) :
    ∃ t, cs = t ++ rest ∧ KeyText t := by
  obtain ⟨bs, hcs, hbs⟩ := exists_blanks cs
  rw [skipKey] at h
  split at h
  · cases h
  · next c r hr =>
    split at h
    · next hc =>
      obtain ⟨r', hstring, hend⟩ := exists_of_bind_ok h
      obtain ⟨name, rfl, hname⟩ := exists_stringText hstring
      -- Blanks may stand on both sides of the name.
      obtain ⟨bs', hr', hbs'⟩ := exists_blanks r'
      split at hend
      · cases hend
      · next d r'' hd =>
        split at hend
        · next hcolon =>
          obtain rfl := Except.ok.inj hend
          refine ⟨_, ?_, .mk hbs hname hbs'⟩
          rw [hcs, hr, hr', hd, hc, hcolon]
          simp
        · cases hend
    · cases h

/-! ## Runs -/

/-- The bracket that opens a container. -/
def Frame.opening : Frame → Char
  | .list => '['
  | .object => '{'

/-- One round of a skipping run: what it takes off the text, and where the run stands then. -/
inductive Round : SkipState → List Frame → List Char → SkipState → List Frame → Prop
  | scalar {stack : List Frame} {s : List Char} (hs : ScalarText s) :
      Round .value stack s .filled stack
  | enter {stack : List Frame} (frame : Frame) :
      Round .value stack [frame.opening] .opened (frame :: stack)
  | leave {st : SkipState} {stack : List Frame} (frame : Frame) (hst : st ≠ .value) :
      Round st (frame :: stack) [frame.close] .filled stack
  | item {stack : List Frame} : Round .opened (.list :: stack) [] .value (.list :: stack)
  | nextItem {stack : List Frame} : Round .filled (.list :: stack) [','] .value (.list :: stack)
  | member {stack : List Frame} {k : List Char} (hk : KeyText k) :
      Round .opened (.object :: stack) k .value (.object :: stack)
  | nextMember {stack : List Frame} {k : List Char} (hk : KeyText k) :
      Round .filled (.object :: stack) (',' :: k) .value (.object :: stack)

/-- What a skipping run still demands of the text, in a state inside of open containers. -/
inductive RestText : SkipState → List Frame → List Char → Prop
  | done {st : SkipState} (hst : st ≠ .value) : RestText st [] []
  | blank {st : SkipState} {stack : List Frame} {c : Char} {t : List Char}
      (hst : st = .value ∨ stack ≠ []) (hc : isBlank c = true) (ht : RestText st stack t) :
      RestText st stack (c :: t)
  | round {st st' : SkipState} {stack stack' : List Frame} {s t : List Char}
      (hs : Round st stack s st' stack') (ht : RestText st' stack' t) : RestText st stack (s ++ t)

/-! ### One round -/

/-- The rounds that a state may take beside two for each character. -/
def SkipState.extra : SkipState → Nat
  | .value => 0
  | .opened => 1
  | .filled => 1

section

variable {st st' : SkipState} {stack stack' : List Frame} {s : List Char}

theorem Round.extra_lt (h : Round st stack s st' stack') :
    st'.extra < 2 * s.length + st.extra := by
  cases h with
  -- A scalar has a character at least.
  | scalar hs =>
    obtain ⟨c, cs, rfl, -⟩ := hs.opens
    simp only [SkipState.extra, List.length_cons]
    omega
  | member hk =>
    obtain ⟨hbs, hname, hbs'⟩ := hk
    simp [SkipState.extra]
  | enter => simp [SkipState.extra]
  | leave frame hst => cases st <;> simp_all [SkipState.extra]
  | item => simp [SkipState.extra]
  | nextItem => simp [SkipState.extra]
  | nextMember => simp [SkipState.extra]

theorem Round.pending (h : Round st stack s st' stack') : st = .value ∨ stack ≠ [] := by
  cases h <;> simp

theorem skipRun_blank {c : Char} (hst : st = .value ∨ stack ≠ []) (hc : isBlank c = true)
    (fuel : Nat) (cs : List Char) : skipRun fuel st stack (c :: cs) = skipRun fuel st stack cs := by
  cases fuel with
  | zero => rfl
  | succ fuel =>
    cases st <;> cases stack <;> simp_all [skipRun, skipBlanks_cons]

theorem skipRun_append {bs : List Char} (hbs : ∀ b ∈ bs, isBlank b = true) (fuel : Nat)
    (stack : List Frame) (cs : List Char) :
    skipRun fuel .value stack (bs ++ cs) = skipRun fuel .value stack cs := by
  induction bs with
  | nil => rfl
  | cons b bs ih =>
    rw [List.cons_append, skipRun_blank (.inl rfl) (hbs b (by simp))]
    exact ih fun b hb => hbs b (List.mem_cons_of_mem _ hb)

/-- A text that begins like a value behind its blanks. -/
def FrontedBehind (t : List Char) : Prop :=
  ∃ bs t', t = bs ++ t' ∧ (∀ b ∈ bs, isBlank b = true) ∧ Fronted t'

/-- A run goes one round, where a number may end after a value and a value follows where one is
due. -/
theorem Round.skipRun (h : Round st stack s st' stack') {r : List Char}
    (hfilled : st' = .filled → Stops r) (hvalue : st' = .value → FrontedBehind r) (fuel : Nat) :
    skipRun (fuel + 1) st stack (s ++ r) = skipRun fuel st' stack' r := by
  cases h with
  | scalar hs =>
    obtain ⟨c, cs, rfl, hblank, hlist, -, hobject, -⟩ := hs.opens
    have hskip := hs.skip (hfilled rfl)
    simp [Json.skipRun, skipBlanks_cons, hblank, hlist, hobject, hskip]
  | enter frame =>
    cases frame <;> simp [Json.skipRun, skipBlanks_cons, Frame.opening, isBlank]
  | leave frame hst =>
    cases st with
    | value => exact absurd rfl hst
    | opened | filled => cases frame <;> simp [Json.skipRun, skipBlanks_cons, Frame.close, isBlank]
  | @item stack =>
    -- No bracket closes the list before its first item, which begins behind the same blanks.
    obtain ⟨bs, t, rfl, hbs, hfront⟩ := hvalue rfl
    have hblanks : skipBlanks (bs ++ t) = t := by
      rw [skipBlanks_append hbs]
      simpa using hfront.skipBlanks []
    rw [skipRun_append hbs]
    obtain ⟨c, cs, rfl, -, hclose⟩ := hfront
    simp only [Json.skipRun, List.nil_append, hblanks, Frame.close, hclose, if_false]
  | nextItem => simp [Json.skipRun, skipBlanks_cons, isBlank, Frame.close]
  | member hk =>
    -- The blanks in front of the name are skipped to see whether it is there.
    obtain @⟨bs, name, bs', hbs, hname, hbs'⟩ := hk
    have hkey := (@KeyText.mk [] name bs' (by simp) hname hbs').skip r
    simp only [List.nil_append, List.cons_append, List.append_assoc] at hkey ⊢
    simp [Json.skipRun, skipBlanks_append hbs, skipBlanks_cons, isBlank, Frame.close, hkey]
  | nextMember hk =>
    simp [Json.skipRun, skipBlanks_cons, isBlank, Frame.close, hk.skip r]

end

/-- A run that has ended was at its end, or has gone one round. -/
theorem exists_round {st : SkipState} {stack : List Frame} {cs rest : List Char} {fuel : Nat}
    (h : skipRun (fuel + 1) st stack cs = .ok rest) :
    (st ≠ .value ∧ stack = [] ∧ cs = rest) ∨
      ∃ s r st' stack', skipBlanks cs = s ++ r ∧ Round st stack s st' stack' ∧
        skipRun fuel st' stack' r = .ok rest := by
  rw [skipRun.eq_def] at h
  -- One round for each state: what it may find there, and the state that it leaves.
  cases st with
  | value =>
    simp only at h
    right
    split at h
    · cases h
    · next c r hr =>
      rw [hr]
      split at h
      · next hc => exact ⟨[c], r, _, _, rfl, by rw [hc]; exact .enter .list, h⟩
      split at h
      · next hc => exact ⟨[c], r, _, _, rfl, by rw [hc]; exact .enter .object, h⟩
      split at h
      · next r' hscalar =>
        obtain ⟨s, hs, hstext⟩ := exists_scalarText hscalar
        exact ⟨s, r', _, _, hs, .scalar hstext, h⟩
      · cases h
  | opened =>
    cases stack with
    | nil => exact .inl ⟨by simp, rfl, Except.ok.inj h⟩
    | cons frame stack =>
      simp only at h
      right
      split at h
      · cases h
      · next c r hr =>
        rw [hr]
        split at h
        · next hc => exact ⟨[c], r, _, _, rfl, by rw [hc]; exact .leave frame (by simp), h⟩
        cases frame with
        | list => exact ⟨[], c :: r, _, _, rfl, .item, h⟩
        | object =>
          simp only at h
          split at h
          · next r' hname =>
            obtain ⟨k, hk, hkey⟩ := exists_keyText hname
            exact ⟨k, r', _, _, hk, .member hkey, h⟩
          · cases h
  | filled =>
    cases stack with
    | nil => exact .inl ⟨by simp, rfl, Except.ok.inj h⟩
    | cons frame stack =>
      simp only at h
      right
      split at h
      · cases h
      · next c r hr =>
        rw [hr]
        split at h
        · next hc => exact ⟨[c], r, _, _, rfl, by rw [hc]; exact .leave frame (by simp), h⟩
        split at h
        · next hc =>
          cases frame with
          | list => exact ⟨[c], r, _, _, rfl, by rw [hc]; exact .nextItem, h⟩
          | object =>
            simp only at h
            split at h
            · next r' hname =>
              obtain ⟨k, rfl, hkey⟩ := exists_keyText hname
              exact ⟨c :: k, r', _, _, rfl, by rw [hc]; exact .nextMember hkey, h⟩
            · cases h
        · cases h

/-! ### Whole runs -/

theorem extendsNumber_of_isBlank {c : Char} (h : isBlank c = true) : extendsNumber c = false := by
  simp only [isBlank, Bool.or_eq_true, decide_eq_true_eq] at h
  obtain ((rfl | rfl) | rfl) | rfl := h <;> decide

section

variable {st : SkipState} {stack : List Frame} {t rest : List Char}

/-- After a value nothing follows that a number could go on with. -/
theorem RestText.stops (h : RestText st stack t) (hst : st = .filled) (hr : Stops rest) :
    Stops (t ++ rest) := by
  cases h with
  | done => exact hr
  | blank _ hc => exact stops_cons.2 (extendsNumber_of_isBlank hc)
  | round hs =>
    cases hs with
    | leave frame => cases frame <;> simp [Frame.close, extendsNumber, isDigit]
    | nextItem => simp [extendsNumber, isDigit]
    | nextMember => simp [extendsNumber, isDigit]
    | scalar | enter | item | member => cases hst

/-- Where a value is due, a text begins like one. -/
theorem RestText.frontedBehind (h : RestText st stack t) (hst : st = .value) :
    FrontedBehind t := by
  induction h with
  | done => contradiction
  | blank _ hc ht ih =>
    obtain ⟨bs, t', rfl, hbs, hfront⟩ := ih hst
    exact ⟨_ :: bs, t', rfl, List.forall_mem_cons.2 ⟨hc, hbs⟩, hfront⟩
  | round hs =>
    cases hs with
    | scalar hs =>
      obtain ⟨c, cs, rfl, hblank, hclose⟩ := hs.opens.fronted
      exact ⟨[], _, rfl, by simp, c, cs ++ _, rfl, hblank, hclose⟩
    | enter frame =>
      exact ⟨[], _, rfl, by simp, frame.opening, _, rfl, by cases frame <;> decide⟩
    | leave _ hst' => exact absurd hst hst'
    | item | nextItem | member | nextMember => cases hst

/-- A run comes over what is demanded. -/
theorem RestText.skipRun (h : RestText st stack t) (hr : Stops rest) {fuel : Nat}
    (hfuel : 2 * t.length + st.extra ≤ fuel) :
    skipRun fuel st stack (t ++ rest) = .ok rest := by
  -- A blank takes no round of its own: the next round skips it with the others.
  induction h generalizing fuel with
  | @done st hst =>
    cases st with
    | value => exact absurd rfl hst
    | opened | filled =>
      simp only [SkipState.extra] at hfuel
      obtain ⟨fuel, rfl⟩ : ∃ n, fuel = n + 1 := ⟨fuel - 1, by omega⟩
      rfl
  | blank hst hc ht ih =>
    simp only [List.length_cons] at hfuel
    rw [List.cons_append, skipRun_blank hst hc]
    exact ih (by omega)
  | @round st st' stack stack' s t hs ht ih =>
    have hextra := hs.extra_lt
    simp only [List.length_append] at hfuel
    obtain ⟨fuel, rfl⟩ : ∃ n, fuel = n + 1 := ⟨fuel - 1, by omega⟩
    have hvalue : st' = .value → FrontedBehind (t ++ rest) := by
      intro hst'
      obtain ⟨bs, t', rfl, hbs, c, cs, rfl, hfront⟩ := ht.frontedBehind hst'
      exact ⟨bs, c :: cs ++ rest, List.append_assoc _ _ _, hbs, c, cs ++ rest, rfl, hfront⟩
    rw [List.append_assoc, hs.skipRun (fun hst' => ht.stops hst' hr) hvalue]
    exact ih (by omega)

theorem RestText.blanks {bs : List Char} (hst : st = .value ∨ stack ≠ [])
    (hbs : ∀ b ∈ bs, isBlank b = true) (ht : RestText st stack t) :
    RestText st stack (bs ++ t) := by
  induction bs with
  | nil => exact ht
  | cons b bs ih =>
    exact .blank hst (hbs b (by simp)) (ih fun b hb => hbs b (List.mem_cons_of_mem _ hb))

end

/-- A run that has ended came over what was demanded. -/
theorem exists_restText {st : SkipState} {stack : List Frame} {cs rest : List Char} {fuel : Nat}
    (h : skipRun fuel st stack cs = .ok rest) : ∃ t, cs = t ++ rest ∧ RestText st stack t := by
  induction fuel generalizing st stack cs with
  | zero => cases h
  | succ fuel ih =>
    obtain ⟨hst, rfl, rfl⟩ | ⟨s, r, st', stack', hs, hround, hrest⟩ := exists_round h
    · exact ⟨[], rfl, .done hst⟩
    · obtain ⟨bs, hcs, hbs⟩ := exists_blanks cs
      obtain ⟨t, rfl, ht⟩ := ih hrest
      refine ⟨bs ++ (s ++ t), ?_, .blanks hround.pending hbs (.round hround ht)⟩
      rw [List.append_assoc, List.append_assoc, ← hs, ← hcs]

/-! ## Raw values -/

/-- The text of a value, without blanks around it. -/
structure IsRaw (t : List Char) : Prop where
  front : Fronted t
  text : RestText .value [] t

theorem IsRaw.skipValue {t rest : List Char} (h : IsRaw t) (hr : Stops rest) :
    skipValue (t ++ rest) = .ok rest := by
  apply h.text.skipRun hr
  simp only [List.length_append, SkipState.extra]
  omega

/-- A raw value is read as it is written. -/
theorem IsRaw.rawValue {t rest : List Char} (h : IsRaw t) (hr : Stops rest) :
    rawValue (t ++ rest) = .ok (String.ofList t, rest) := by
  simp [Json.rawValue, h.front.skipBlanks, h.skipValue hr]

/-- What is read as a raw value is one. -/
theorem isRaw_of_rawValue {cs rest : List Char} {s : String} (h : rawValue cs = .ok (s, rest)) :
    IsRaw s.toList := by
  obtain ⟨r, hskip, h⟩ := exists_of_bind_ok h
  obtain ⟨rfl, rfl⟩ := Prod.mk.inj (Except.ok.inj h)
  obtain ⟨t, ht, htext⟩ := exists_restText hskip
  have htake : (skipBlanks cs).take ((skipBlanks cs).length - r.length) = t := by
    simp [ht]
  rw [htake, String.toList_ofList]
  obtain ⟨bs, t', rfl, hbs, hfront⟩ := htext.frontedBehind rfl
  -- Blanks have been skipped before, so there are none in front.
  cases bs with
  | nil => exact ⟨hfront, htext⟩
  | cons b bs =>
    have hb := isBlank_of_skipBlanks ht
    rw [hbs b (by simp)] at hb
    cases hb

end BlockFlow.Json
