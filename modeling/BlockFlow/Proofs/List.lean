import Mathlib.Data.List.Forall2
import Mathlib.Data.List.Nodup
import Mathlib.Data.List.Sort

/-!
# List lemmas

Generic lemmas on lists that the library of lists lacks.
-/

namespace List

/-- A traversal that succeeds gives a result for every element. -/
theorem forall₂_of_mapM_ok {ε α β : Type} {f : α → Except ε β} {as : List α} {bs : List β}
    (h : as.mapM f = .ok bs) : Forall₂ (fun a b => f a = .ok b) as bs := by
  induction as generalizing bs with
  | nil =>
    cases h
    exact .nil
  | cons a as ih =>
    rw [mapM_cons] at h
    cases ha : f a with
    | error e => rw [ha] at h; cases h
    | ok b =>
      cases has : as.mapM f with
      | error e => rw [ha, has] at h; cases h
      | ok bs' =>
        rw [ha, has] at h
        cases h
        exact .cons ha (ih has)

/-- A traversal succeeds if it does for each element. -/
theorem exists_mapM_ok {ε α β : Type} {f : α → Except ε β} {as : List α}
    (h : ∀ a ∈ as, ∃ b, f a = .ok b) : ∃ bs, as.mapM f = .ok bs := by
  induction as with
  | nil => exact ⟨[], rfl⟩
  | cons a as ih =>
    obtain ⟨b, hb⟩ := h a mem_cons_self
    obtain ⟨bs, hbs⟩ := ih (fun c hc => h c (mem_cons_of_mem a hc))
    exact ⟨b :: bs, by rw [mapM_cons, hb, hbs]; rfl⟩

/-- A traversal fails with the error of the first element for which there is one. -/
theorem mapM_eq_error_iff {ε α β : Type} {f : α → Except ε β} {as : List α} {e : ε} :
    as.mapM f = .error e ↔
      ∃ (i : Nat) (a : α), as[i]? = some a ∧ f a = .error e ∧
        ∀ k < i, ∀ b, as[k]? = some b → ∃ c, f b = .ok c := by
  induction as with
  | nil =>
    rw [mapM_nil]
    constructor
    · intro h
      cases h
    · rintro ⟨i, a, ha, -⟩
      simp at ha
  | cons a as ih =>
    rw [mapM_cons]
    cases ha : f a with
    | error e' =>
      constructor
      · intro h
        cases h
        exact ⟨0, a, rfl, ha, by simp⟩
      · rintro ⟨i, b, hb, he, hbefore⟩
        cases i with
        | zero =>
          obtain rfl := Option.some.inj hb
          obtain rfl := Except.error.inj (ha.symm.trans he)
          rfl
        | succ i =>
          obtain ⟨c, hc⟩ := hbefore 0 (by omega) a rfl
          rw [ha] at hc
          cases hc
    | ok b =>
      have hcons : (as.mapM f >>= fun bs => pure (b :: bs)) = .error e ↔ as.mapM f = .error e := by
        cases as.mapM f with
        | error e' => simp [bind, Except.bind]
        | ok bs => simp [bind, Except.bind, pure, Except.pure]
      rw [show ((Except.ok b : Except ε β) >>= fun b => as.mapM f >>= fun bs => pure (b :: bs)) =
        (as.mapM f >>= fun bs => pure (b :: bs)) from rfl, hcons, ih]
      constructor
      · rintro ⟨i, a', ha', he, hbefore⟩
        refine ⟨i + 1, a', ha', he, fun k hk c hc => ?_⟩
        cases k with
        | zero => exact ⟨b, by rw [← Option.some.inj hc]; exact ha⟩
        | succ k => exact hbefore k (by omega) c hc
      · rintro ⟨i, a', ha', he, hbefore⟩
        cases i with
        | zero =>
          obtain rfl := Option.some.inj ha'
          rw [ha] at he
          cases he
        | succ i => exact ⟨i, a', ha', he, fun k hk c hc => hbefore (k + 1) (by omega) c hc⟩

/-- What is true of each result of a traversal is true of all of them in order. -/
theorem map_of_mapM_some {α β γ : Type} {f : α → Option β} {g : β → γ} {k : α → γ}
    (hk : ∀ a b, f a = some b → g b = k a) {as : List α} {bs : List β}
    (h : as.mapM f = some bs) : bs.map g = as.map k := by
  induction as generalizing bs with
  | nil =>
    obtain rfl := Option.some.inj h
    rfl
  | cons a as ih =>
    rw [mapM_cons] at h
    obtain ⟨b, hb, h⟩ := Option.bind_eq_some_iff.1 h
    obtain ⟨bs', hbs', h⟩ := Option.bind_eq_some_iff.1 h
    obtain rfl := Option.some.inj h
    rw [map_cons, map_cons, hk a b hb, ih hbs']

theorem length_of_mapM_some {α β : Type} {f : α → Option β} {as : List α} {bs : List β}
    (h : as.mapM f = some bs) : bs.length = as.length := by
  have hunits := map_of_mapM_some (g := fun _ => ()) (k := fun _ => ()) (fun _ _ _ => rfl) h
  simpa using congrArg length hunits

/-- Traversals of lists that differ in one place differ in that place. -/
theorem rel_mapM_replace {α β : Type} {f : α → Option β} {R : β → β → Prop}
    {S : List β → List β → Prop} {a a' : α} (h : Option.Rel R (f a) (f a')) (as cs : List α)
    (hS : ∀ bs b b' ds, bs.length = as.length → R b b' → S (bs ++ b :: ds) (bs ++ b' :: ds)) :
    Option.Rel S ((as ++ a :: cs).mapM f) ((as ++ a' :: cs).mapM f) := by
  rw [mapM_append, mapM_append, mapM_cons, mapM_cons]
  cases has : as.mapM f with
  | none => exact .none
  | some bs =>
    generalize f a = x, f a' = y at h
    cases h with
    | none => exact .none
    | some hab =>
      cases cs.mapM f with
      | none => exact .none
      | some ds => exact .some (hS bs _ _ ds (length_of_mapM_some has) hab)

/-- Traversals of permuted lists give permuted lists. -/
theorem rel_mapM_perm {α β : Type} (f : α → Option β) {as as' : List α} (h : as.Perm as') :
    Option.Rel Perm (as.mapM f) (as'.mapM f) := by
  induction h with
  | nil => exact .some .nil
  | @cons a as as' _ ih =>
    rw [mapM_cons, mapM_cons]
    cases f a with
    | none => exact .none
    | some b =>
      generalize as.mapM f = x, as'.mapM f = y at ih
      cases ih with
      | none => exact .none
      | some hperm => exact .some (hperm.cons b)
  | swap a a' as =>
    simp only [mapM_cons]
    cases f a <;> cases f a' <;> cases as.mapM f <;>
      first | exact .none | exact .some (.swap _ _ _)
  | @trans as₁ as₂ as₃ _ _ ih ih' =>
    generalize as₁.mapM f = x, as₂.mapM f = y, as₃.mapM f = z at ih ih'
    cases ih with
    | none => exact ih'
    | some hperm =>
      cases ih' with
      | some hperm' => exact .some (hperm.trans hperm')

/-- To read elements and forget a part of what was read is to read only the rest. -/
theorem map_mapM_eq {α α' β β' : Type} {f : α → Option β} {f' : α' → Option β'} {g : α → α'}
    {p : β → β'} {as : List α} (h : ∀ a ∈ as, (f a).map p = f' (g a)) :
    (as.mapM f).map (map p) = (as.map g).mapM f' := by
  induction as with
  | nil => rfl
  | cons a as ih =>
    have h := forall_mem_cons.1 h
    rw [mapM_cons, map_cons, mapM_cons, ← ih h.2, ← h.1]
    cases f a <;> cases as.mapM f <;> rfl

theorem filterMap_of_map_eq {α β : Type} {f : α → Option β} {as : List α} {bs : List β}
    (h : as.map f = bs.map some) : as.filterMap f = bs := by
  have hfilter := congrArg (filterMap id) h
  simpa [filterMap_map, Function.comp_def] using hfilter

/-- The only element. -/
def sole? {α : Type} : List α → Option α
  | [a] => some a
  | _ => none

theorem sole?_append_cons {α : Type} (as : List α) (a : α) (bs : List α) :
    (as ++ a :: bs).sole? = if as = [] ∧ bs = [] then some a else none := by
  cases as with
  | nil => cases bs <;> rfl
  | cons a' as => cases as <;> rfl

theorem Perm.sole?_eq {α : Type} {as bs : List α} (h : as.Perm bs) : as.sole? = bs.sole? := by
  match as, bs with
  | [], bs => rw [h.nil_eq]
  | [a], bs => rw [← h.singleton_eq]
  | _ :: _ :: _, [] => cases h.length_eq
  | _ :: _ :: _, [b] => simpa using h.length_eq
  | _ :: _ :: _, _ :: _ :: _ => rfl

/-- In lists that are joined without repeats, an element comes from one list only. -/
theorem eq_of_nodup_flatMap {α β : Type} {f : α → List β} {l : List α} (h : (l.flatMap f).Nodup)
    {a b : α} (ha : a ∈ l) (hb : b ∈ l) {x : β} (hxa : x ∈ f a) (hxb : x ∈ f b) : a = b := by
  induction l with
  | nil => exact absurd ha not_mem_nil
  | cons c l ih =>
    rw [flatMap_cons, nodup_append] at h
    obtain ⟨-, hl, hdisjoint⟩ := h
    have hother : ∀ d ∈ l, x ∈ f d → x ∉ f c :=
      fun d hd hxd hxc => hdisjoint x hxc x (mem_flatMap.2 ⟨d, hd, hxd⟩) rfl
    rcases mem_cons.1 ha with rfl | ha'
    · rcases mem_cons.1 hb with rfl | hb
      · rfl
      · exact absurd hxa (hother b hb hxb)
    · rcases mem_cons.1 hb with rfl | hb
      · exact absurd hxb (hother a ha' hxa)
      · exact ih hl ha' hb

/-- A place in joined lists is a place in one of them. -/
theorem exists_of_flatMap_eq_append_cons {α β : Type} {f : α → List β} {l : List α}
    {as bs : List β} {x : β} (h : l.flatMap f = as ++ x :: bs) :
    ∃ l₁ a l₂ cs ds, l = l₁ ++ a :: l₂ ∧ f a = cs ++ x :: ds ∧ as = l₁.flatMap f ++ cs := by
  induction l generalizing as with
  | nil => simp at h
  | cons a l ih =>
    rw [flatMap_cons] at h
    rcases append_eq_append_iff.1 h with ⟨as', rfl, hrest⟩ | ⟨cs, hfa, hrest⟩
    · obtain ⟨l₁, b, l₂, cs, ds, rfl, hb, rfl⟩ := ih hrest
      exact ⟨a :: l₁, b, l₂, cs, ds, rfl, hb, by rw [flatMap_cons, append_assoc]⟩
    · cases cs with
      | nil =>
        -- The place is the first one after the first list.
        have hfirst : l.flatMap f = [] ++ x :: bs := by simpa using hrest.symm
        obtain ⟨l₁, b, l₂, cs, ds, rfl, hb, hnil⟩ := ih hfirst
        refine ⟨a :: l₁, b, l₂, cs, ds, rfl, hb, ?_⟩
        rw [flatMap_cons, append_assoc, ← hnil, append_nil, hfa, append_nil]
      | cons c cs =>
        obtain ⟨rfl, -⟩ := cons.inj hrest
        exact ⟨[], a, l, as, cs, rfl, hfa, rfl⟩

private theorem filterMap_range_getElem? {α : Type} (l : List α) (q : α → Bool) :
    (range l.length).filterMap (fun i => l[i]?.filter q) = l.filter q := by
  induction l with
  | nil => rfl
  | cons a l ih =>
    rw [length_cons, range_succ_eq_map, filterMap_cons, filterMap_map, filter_cons]
    have htail : ((fun i => (a :: l)[i]?.filter q) ∘ Nat.succ) = fun i => l[i]?.filter q := by
      funext i
      simp
    rw [htail, ih, getElem?_cons_zero, Option.filter_some]
    cases q a <;> rfl

/-- The places of some elements, in ascending order, give these elements in their order. -/
theorem filterMap_getElem?_of_ascending {α : Type} {l : List α} {is : List Nat} {q : α → Bool}
    (his : is.Pairwise (· < ·)) (hmem : ∀ i, i ∈ is ↔ ∃ a, l[i]? = some a ∧ q a = true) :
    is.filterMap (fun i => l[i]?) = l.filter q := by
  have heq : is = (range l.length).filter (fun i => l[i]?.any q) := by
    refine Pairwise.eq_of_mem_iff his (pairwise_lt_range.filter _) (fun i => ?_)
    rw [hmem, mem_filter, mem_range, Option.any_eq_true]
    exact ⟨fun ⟨a, ha, hq⟩ => ⟨(getElem?_eq_some_iff.1 ha).1, a, ha, hq⟩, fun h => h.2⟩
  rw [heq, filterMap_filter, ← filterMap_range_getElem? l q]
  refine filterMap_congr (fun i _ => ?_)
  cases l[i]? with
  | none => rfl
  | some a => rw [Option.any_some, Option.filter_some]

theorem nodup_eraseDups {α : Type*} [BEq α] [LawfulBEq α] (l : List α) : l.eraseDups.Nodup := by
  -- Induction on the length, since the tail is filtered before it goes on.
  generalize hn : l.length = n
  induction n using Nat.strongRecOn generalizing l with
  | ind n ih =>
    cases l with
    | nil => exact nodup_nil
    | cons a as =>
      rw [eraseDups_cons, nodup_cons, mem_eraseDups]
      refine ⟨by simp, ih _ ?_ _ rfl⟩
      have := length_filter_le (fun b => !b == a) as
      simp only [length_cons] at hn
      omega

/-- An element that has come before is not taken again. -/
theorem eraseDups_concat {α : Type*} [BEq α] [LawfulBEq α] (l : List α) (a : α) :
    (l ++ [a]).eraseDups = if l.eraseDups.contains a then l.eraseDups else l.eraseDups ++ [a] := by
  rw [eraseDups_append]
  by_cases h : a ∈ l <;> simp [removeAll, h, eraseDups_cons]

/-- What no step of a fold changes is as it was. -/
theorem apply_foldl_eq {σ α β : Type} {f : σ → α → σ} {g : σ → β} {as : List α}
    (h : ∀ s, ∀ a ∈ as, g (f s a) = g s) (s : σ) : g (as.foldl f s) = g s :=
  as.foldlRecOn (motive := fun t => g t = g s) f rfl (fun t ht a ha => (h t a ha).trans ht)

/-- What some steps of a fold set, all of them to the same, is what they have set it to. -/
theorem apply_foldl_eq_of_mem {σ α β : Type} {f : σ → α → σ} {g : σ → β} {p : α → Prop}
    [DecidablePred p] {v : α → β} {as : List α} {b : β}
    (h : ∀ s, ∀ a ∈ as, g (f s a) = if p a then v a else g s) (hmem : ∃ a ∈ as, p a)
    (hval : ∀ a ∈ as, p a → v a = b) (s : σ) : g (as.foldl f s) = b := by
  induction as generalizing s with
  | nil => obtain ⟨a, ha, -⟩ := hmem; cases ha
  | cons a as ih =>
    have h' : ∀ s, ∀ a ∈ as, g (f s a) = if p a then v a else g s :=
      fun s a ha => h s a (mem_cons_of_mem _ ha)
    have hval' : ∀ a ∈ as, p a → v a = b := fun a ha => hval a (mem_cons_of_mem _ ha)
    by_cases hlater : ∃ a ∈ as, p a
    · exact ih h' hlater hval' _
    · -- Nothing is set again after the first step, so it is the one that sets.
      have hkept : g (as.foldl f (f s a)) = g (f s a) :=
        apply_foldl_eq (fun s c hc => by rw [h' s c hc, if_neg fun hp => hlater ⟨c, hc, hp⟩]) _
      have hp : p a := by
        obtain ⟨c, hc, hp⟩ := hmem
        rcases mem_cons.1 hc with rfl | hc
        · exact hp
        · exact absurd ⟨c, hc, hp⟩ hlater
      rw [foldl_cons, hkept, h s a mem_cons_self, if_pos hp, hval a mem_cons_self hp]

end List
