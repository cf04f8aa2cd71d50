import Lucha.Proofs.Parser.Repetition

/-!
# What a reader looks at

A reader decides by the tokens it takes and by the token behind them, so a run can be repeated where
other tokens follow (`Rereads`): at a fault they may be any that begin with the refused token, and
behind an answer any that the reader would not go on with.

The readers of repetitions count the tokens that are left, which other tokens behind would change.
So these readers are first said without counting: what they read does not depend on the count
(`counted_eq`).
-/

namespace Lucha

/-- The tokens that may follow what was taken before a fault, for the fault to stay. -/
def Fault.Allows : Fault → List Token → Prop
  | .at _ token, more => more.head? = some token
  | .atEnd _, more => more = []
  | .inconsistent _, _ => True

namespace Parser

open EStateM (Result)

variable {α β : Type} {ts mid rest more taken : List Token} {ahead : List TokenKind}
  {p q item : Parser α} {f g : α → Parser β} {a : α} {kind : TokenKind}

/-! ### Runs -/

theorem bind_of_ok (h : p ts = .ok a mid) : (p >>= f) ts = f a mid := by
  show EStateM.bind p f ts = _
  rw [EStateM.bind, h]

theorem bind_of_error {fault : Fault} (h : p ts = .error fault rest) :
    (p >>= f) ts = .error fault rest := by
  show EStateM.bind p f ts = _
  rw [EStateM.bind, h]

theorem map_of_ok {f : α → β} (h : p ts = .ok a mid) : (f <$> p) ts = .ok (f a) mid := by
  show EStateM.map f p ts = _
  rw [EStateM.map, h]

theorem map_of_error {f : α → β} {fault : Fault} (h : p ts = .error fault rest) :
    (f <$> p) ts = .error fault rest := by
  show EStateM.map f p ts = _
  rw [EStateM.map, h]

/-- A run goes on alike if it goes on alike from what was answered. -/
theorem bind_congr_of_ok (h : ∀ a mid, p ts = .ok a mid → f a mid = g a mid) :
    (p >>= f) ts = (p >>= g) ts := by
  cases hrun : p ts with
  | ok a mid => rw [bind_of_ok hrun, bind_of_ok hrun, h a mid hrun]
  | error fault rest => rw [bind_of_error hrun, bind_of_error hrun]

/-- Runs that come out the same go on the same. -/
theorem bind_congr_left (h : p ts = q mid) : (p >>= f) ts = (q >>= f) mid := by
  cases hrun : q mid with
  | ok a mid => rw [bind_of_ok hrun, bind_of_ok (h.trans hrun)]
  | error fault rest => rw [bind_of_error hrun, bind_of_error (h.trans hrun)]

theorem map_congr_run {f : α → β} (h : p ts = q mid) : (f <$> p) ts = (f <$> q) mid := by
  rw [map_eq_pure_bind, map_eq_pure_bind]
  exact bind_congr_left h

/-- An optional token is taken where it stands. -/
theorem skip_bind_of_kind {token : Token} (h : token.kind = kind) :
    (skip kind >>= fun found => if found = true then p else q) (token :: ts) = p ts := by
  have hrun : skip kind (token :: ts) = .ok true ts := if_pos h
  rw [bind_of_ok hrun, if_pos rfl]

/-- An optional token that does not stand there is not missed. -/
theorem skip_bind_of_not_starts (h : ¬ Starts kind ts) :
    (skip kind >>= fun found => if found = true then p else q) ts = q ts := by
  cases ts with
  | nil => rfl
  | cons token ts =>
    have hrun : skip kind (token :: ts) = .ok false (token :: ts) :=
      if_neg (mt starts_cons.mpr h)
    rw [bind_of_ok hrun, if_neg Bool.false_ne_true]

/-- Readers that go on alike after a token, or alike without it. -/
theorem skip_bind_congr {p p' q q' : Parser β}
    (hp : ∀ token ts', ts = token :: ts' → p ts' = p' ts') (hq : q ts = q' ts) :
    (skip kind >>= fun found => if found = true then p else q) ts
      = (skip kind >>= fun found => if found = true then p' else q') ts := by
  by_cases hstarts : Starts kind ts
  · cases ts with
    | nil => exact absurd hstarts not_starts_nil
    | cons token ts =>
      rw [skip_bind_of_kind (starts_cons.mp hstarts), skip_bind_of_kind (starts_cons.mp hstarts)]
      exact hp token ts rfl
  · rw [skip_bind_of_not_starts hstarts, skip_bind_of_not_starts hstarts, hq]

/-- To look ahead takes nothing, and decides for the first reader where the token stands. -/
theorem peek_bind_of_starts (h : Starts kind ts) :
    (peek kind >>= fun found => if found = true then p else q) ts = p ts := by
  cases ts with
  | nil => exact absurd h not_starts_nil
  | cons token ts =>
    have hrun : peek kind (token :: ts) = .ok true (token :: ts) := by
      simp [peek, starts_cons.mp h]
    exact bind_of_ok hrun

/-- To look ahead decides for the second reader where the token does not stand. -/
theorem peek_bind_of_not_starts (h : ¬ Starts kind ts) :
    (peek kind >>= fun found => if found = true then p else q) ts = q ts := by
  cases ts with
  | nil => rfl
  | cons token ts =>
    have hrun : peek kind (token :: ts) = .ok false (token :: ts) := by
      simp [peek, mt starts_cons.mpr h]
    exact bind_of_ok hrun

theorem peek_bind_congr {p p' q q' : Parser β} (hp : p ts = p' ts) (hq : q ts = q' ts) :
    (peek kind >>= fun found => if found = true then p else q) ts
      = (peek kind >>= fun found => if found = true then p' else q') ts := by
  by_cases hstarts : Starts kind ts
  · rw [peek_bind_of_starts hstarts, peek_bind_of_starts hstarts, hp]
  · rw [peek_bind_of_not_starts hstarts, peek_bind_of_not_starts hstarts, hq]

/-! ### Runs that are repeated -/

/-- The tokens that a run leaves. -/
def left : Result Fault (List Token) α → List Token
  | .ok _ rest => rest
  | .error _ rest => rest

/-- How a run comes out that leaves other tokens. -/
def leaving : Result Fault (List Token) α → List Token → Result Fault (List Token) α
  | .ok a _, more => .ok a more
  | .error fault _, more => .error fault more

/-- The tokens that may follow what a run took: for an answer they begin with what the reader would
go on with only if the tokens left did. -/
def Allows (ahead : List TokenKind) : Result Fault (List Token) α → List Token → Prop
  | .ok _ rest, more => ∀ kind ∈ ahead, Starts kind more → Starts kind rest
  | .error fault _, more => fault.Allows more

/-- The run is repeated where allowed tokens follow those that it took. -/
structure RereadsAt (ahead : List TokenKind) (p : Parser α) (ts taken : List Token) : Prop where
  append_left : taken ++ left (p ts) = ts
  allows_left : Allows ahead (p ts) (left (p ts))
  append : ∀ ⦃more⦄, Allows ahead (p ts) more → p (taken ++ more) = leaving (p ts) more

theorem RereadsAt.of_run {result : Result Fault (List Token) α} (hrun : p ts = result)
    (happend : taken ++ left result = ts) (hleft : Allows ahead result (left result))
    (hreread : ∀ ⦃more⦄, Allows ahead result more → p (taken ++ more) = leaving result more) :
    RereadsAt ahead p ts taken := by
  subst hrun
  exact ⟨happend, hleft, hreread⟩

/-- Every run of the reader is repeated where allowed tokens follow. -/
def Rereads (ahead : List TokenKind) (p : Parser α) : Prop :=
  ∀ ts, ∃ taken, RereadsAt ahead p ts taken

/-- The reader does not answer without a token. -/
def Hungry (p : Parser α) : Prop :=
  ∃ expected, p [] = .error (.atEnd expected) []

/-- The run is repeated from the token where it began, if there is none to go without. -/
theorem RereadsAt.head?_append (h : RereadsAt ahead p ts taken) (hungry : Hungry p)
    (hmore : Allows ahead (p ts) more) : (taken ++ more).head? = ts.head? := by
  obtain ⟨expected, hnil⟩ := hungry
  obtain ⟨happend, hleft, hreread⟩ := h
  cases taken with
  | cons token taken => rw [← happend]; rfl
  | nil =>
    -- with nothing taken, an answer or an inconsistency would come without a token as well
    rw [List.nil_append] at happend ⊢
    cases hrun : p ts with
    | ok a rest =>
      rw [hrun] at hreread
      have hnone := @hreread [] fun _ _ hstarts => absurd hstarts not_starts_nil
      cases hnil.symm.trans hnone
    | error fault rest =>
      rw [hrun] at hreread hleft hmore happend
      subst happend
      cases fault with
      | «at» fault token => exact Eq.trans hmore (Eq.symm hleft)
      | atEnd expected =>
        obtain rfl : more = [] := hmore
        obtain rfl : rest = [] := hleft
        rfl
      | inconsistent inconsistency =>
        have hnone := @hreread [] trivial
        cases hnil.symm.trans hnone

/-! ### Readers that are put together -/

theorem rereads_pure (a : α) : Rereads [] (pure a : Parser α) :=
  fun _ => ⟨[], rfl, fun _ _ h => h, fun _ _ => rfl⟩

/-- A check of names takes nothing and does not depend on what follows. -/
theorem rereads_consistent (e : Except Inconsistency α) : Rereads ahead (consistent e) := by
  intro ts
  cases e with
  | ok a => exact ⟨[], .of_run rfl rfl (fun _ _ h => h) fun _ _ => rfl⟩
  | error i => exact ⟨[], .of_run rfl rfl trivial fun _ _ => rfl⟩

/-- A run that finds no token. -/
theorem rereadsAt_nil {expected : String} (h : p [] = .error (.atEnd expected) []) :
    RereadsAt ahead p [] [] := by
  refine .of_run h rfl rfl fun more hmore => ?_
  rw [show more = [] from hmore]
  exact h

/-- A run that refuses the token it finds, whatever follows that. -/
theorem rereadsAt_refused {token : Token} {fault : SyntaxFault}
    (h : ∀ ts, p (token :: ts) = .error (.at fault token) (token :: ts)) :
    RereadsAt ahead p (token :: ts) [] := by
  refine .of_run (h ts) rfl rfl fun more hmore => ?_
  obtain ⟨tail, rfl⟩ := List.head?_eq_some_iff.mp hmore
  exact h tail

/-- What a reader would go on with may be more than it does. -/
theorem Rereads.mono {ahead' : List TokenKind} (h : Rereads ahead p) (hsub : ahead ⊆ ahead') :
    Rereads ahead' p := by
  intro ts
  obtain ⟨taken, happend, hleft, hreread⟩ := h ts
  refine ⟨taken, ?_⟩
  cases hrun : p ts with
  | ok a rest =>
    rw [hrun] at happend hreread
    exact .of_run hrun happend (fun _ _ h => h) fun more hmore =>
      hreread fun kind hkind => hmore kind (hsub hkind)
  | error fault rest =>
    rw [hrun] at happend hleft hreread
    exact .of_run hrun happend hleft hreread

/-- A reader and what goes on from its answer: what it would go on with itself does not matter, if
there is nothing or if something follows. -/
theorem RereadsAt.bind {ahead' : List TokenKind} (hp : RereadsAt ahead p ts taken)
    (hf : ∀ a mid, p ts = .ok a mid → ∃ taken', RereadsAt ahead' (f a) mid taken')
    (h : ahead = [] ∨ ∀ a, Hungry (f a)) : ∃ taken', RereadsAt ahead' (p >>= f) ts taken' := by
  obtain ⟨happend, hleft, hreread⟩ := hp
  cases hrun : p ts with
  | error fault rest =>
    rw [hrun] at happend hleft hreread
    exact ⟨taken, .of_run (bind_of_error hrun) happend hleft fun more hmore =>
      bind_of_error (hreread hmore)⟩
  | ok a mid =>
    rw [hrun] at happend hreread
    obtain ⟨taken', hmid⟩ := hf a mid hrun
    refine ⟨taken ++ taken', .of_run (bind_of_ok hrun) ?_ hmid.allows_left fun more hmore => ?_⟩
    · rw [List.append_assoc, hmid.append_left]
      exact happend
    · have hallowed : Allows ahead (.ok a mid) (taken' ++ more) := by
        intro kind hkind hstarts
        rcases h with rfl | hungry
        · cases hkind
        · rwa [Starts, hmid.head?_append (hungry a) hmore] at hstarts
      rw [List.append_assoc, bind_of_ok (hreread hallowed)]
      exact hmid.append hmore

/-- Readers one after the other repeat their runs if the first one does not look ahead. -/
theorem Rereads.bind {ahead' : List TokenKind} (hp : Rereads [] p)
    (hf : ∀ a, Rereads ahead' (f a)) : Rereads ahead' (p >>= f) := fun ts =>
  have ⟨_, htaken⟩ := hp ts
  htaken.bind (fun a mid _ => hf a mid) (.inl rfl)

theorem RereadsAt.map (h : RereadsAt ahead p ts taken) (f : α → β) :
    RereadsAt ahead (f <$> p) ts taken := by
  obtain ⟨happend, hleft, hreread⟩ := h
  cases hrun : p ts with
  | error fault rest =>
    rw [hrun] at happend hleft hreread
    exact .of_run (map_of_error hrun) happend hleft fun more hmore => map_of_error (hreread hmore)
  | ok a rest =>
    rw [hrun] at happend hleft hreread
    exact .of_run (map_of_ok hrun) happend hleft fun more hmore => map_of_ok (hreread hmore)

/-- A reader that is entered behind a token. -/
theorem RereadsAt.cons {token : Token} (h : RereadsAt ahead p ts taken)
    (hrun : ∀ ts, q (token :: ts) = p ts) : RereadsAt ahead q (token :: ts) (token :: taken) := by
  obtain ⟨happend, hleft, hreread⟩ := h
  refine .of_run (hrun ts) (congrArg (token :: ·) happend) hleft fun more hmore => ?_
  rw [List.cons_append, hrun]
  exact hreread hmore

/-- A reader that is entered at some first tokens. -/
theorem RereadsAt.congr_head? (h : RereadsAt ahead p ts taken) (hungry : Hungry p)
    (hrun : ∀ ts', ts'.head? = ts.head? → q ts' = p ts') : RereadsAt ahead q ts taken := by
  refine .of_run (hrun ts rfl) h.append_left h.allows_left fun more hmore => ?_
  rw [hrun _ (h.head?_append hungry hmore)]
  exact h.append hmore

/-- A reader that answers at once where no token of a kind follows, and would go on with one. -/
theorem rereadsAt_of_not_starts (hkind : kind ∈ ahead) (hstop : ¬ Starts kind ts)
    (hrun : ∀ ts, ¬ Starts kind ts → q ts = .ok a ts) : RereadsAt ahead q ts [] :=
  .of_run (hrun ts hstop) rfl (fun _ _ h => h) fun more hmore =>
    hrun more fun hstarts => hstop (hmore kind hkind hstarts)

/-- An answer depends on the tokens that were taken for it, and on those behind as far as the reader
would go on with them. -/
theorem Rereads.exists_append (h : Rereads ahead p) (hrun : p ts = .ok a rest) :
    ∃ taken, ts = taken ++ rest ∧ ∀ more, (∀ kind ∈ ahead, Starts kind more → Starts kind rest) →
      p (taken ++ more) = .ok a more := by
  obtain ⟨taken, happend, -, hreread⟩ := h ts
  rw [hrun] at happend hreread
  exact ⟨taken, happend.symm, fun more hmore => hreread hmore⟩

/-- Behind an answer that left nothing, other tokens are left. -/
theorem Rereads.ok_append (h : Rereads ahead p) (hrun : p ts = .ok a [])
    (hmore : ∀ kind ∈ ahead, ¬ Starts kind more) : p (ts ++ more) = .ok a more := by
  obtain ⟨taken, rfl, hreread⟩ := h.exists_append hrun
  rw [List.append_nil]
  exact hreread more fun kind hkind hstarts => absurd hstarts (hmore kind hkind)

/-! ### Repetitions without counting -/

/-- No reader leaves more tokens than there were. -/
theorem Rereads.length_le (h : Rereads ahead p) (hrun : p ts = .ok a rest) :
    rest.length ≤ ts.length := by
  obtain ⟨taken, rfl, -⟩ := h.exists_append hrun
  simp

/-- A reader that does not answer without a token takes one. -/
theorem Rereads.length_lt (h : Rereads ahead p) (hungry : Hungry p) (hrun : p ts = .ok a rest) :
    rest.length < ts.length := by
  obtain ⟨expected, hnil⟩ := hungry
  obtain ⟨_ | ⟨token, taken⟩, rfl, hreread⟩ := h.exists_append hrun
  · have hnone := hreread [] fun _ _ hstarts => absurd hstarts not_starts_nil
    cases hnil.symm.trans hnone
  · simp only [List.cons_append, List.length_cons, List.length_append]
    omega

section Counting

variable {ι : Type}

/-- A repetition that counts down from the number of tokens that are left. -/
def counted (loop : Nat → ι → Parser α) (i : ι) : Parser α :=
  fun ts => loop ts.length i ts

/-- Where each round takes a token, a repetition that counts the tokens goes on as one that does
not count. -/
theorem counted_eq (loop : Nat → ι → Parser α) (body : (ι → Parser α) → ι → Parser α)
    (hzero : ∀ i, loop 0 i [] = body (loop 0) i [])
    (hsucc : ∀ bound i, loop (bound + 1) i = body (loop bound) i)
    (hbody : ∀ ⦃g g' : ι → Parser α⦄ ⦃i ts⦄,
      (∀ i ts', ts'.length < ts.length → g i ts' = g' i ts') → body g i ts = body g' i ts)
    (i : ι) : counted loop i = body (counted loop) i := by
  have hstep (bound : Nat) (i : ι) (ts : List Token) (h : ts.length ≤ bound) :
      loop bound i ts = body (loop (bound - 1)) i ts := by
    cases bound with
    | zero =>
      obtain rfl := List.eq_nil_of_length_eq_zero (Nat.le_zero.mp h)
      exact hzero i
    | succ bound => rw [hsucc, Nat.add_sub_cancel]
  -- a higher bound changes nothing, by induction on the tokens that are left
  have hbound (n : Nat) : ∀ (i : ι) (ts : List Token), ts.length = n → ∀ bound, n ≤ bound →
      loop bound i ts = loop n i ts := by
    induction n using Nat.strongRecOn with
    | _ n ih =>
      rintro i ts rfl bound hle
      rw [hstep bound i ts hle, hstep ts.length i ts (Nat.le_refl _)]
      refine hbody fun i ts' hlt => ?_
      rw [ih _ hlt i ts' rfl (bound - 1) (by omega), ih _ hlt i ts' rfl (ts.length - 1) (by omega)]
  funext ts
  rw [counted, hstep ts.length i ts (Nat.le_refl _)]
  refine hbody fun i ts' hlt => ?_
  rw [counted, hbound _ i ts' rfl (ts.length - 1) (by omega)]

end Counting

/-- More items, each after a comma. -/
def moreAfterCommas (item : Parser α) : Parser (List α) :=
  counted (fun bound (_ : Unit) => afterCommas item bound) ()

/-- More items after commas: none where no comma follows, and else one item and more after
commas. -/
theorem moreAfterCommas_eq (hitem : Rereads ahead item) :
    moreAfterCommas item = (skip (.symbol .comma) >>= fun found =>
      if found = true then item >>= fun first => (first :: ·) <$> moreAfterCommas item
      else pure []) := by
  refine counted_eq _ (fun g i => skip (.symbol .comma) >>= fun found =>
    if found = true then item >>= fun first => (first :: ·) <$> g i else pure [])
    (fun _ => rfl) (fun _ _ => rfl) (fun g g' i ts h => ?_) ()
  refine skip_bind_congr (fun token tail htail => ?_) rfl
  refine bind_congr_of_ok fun first mid hfirst => map_congr_run (h i mid ?_)
  -- the comma took a token, whatever the item did
  have hle := hitem.length_le hfirst
  rw [htail, List.length_cons]
  omega

/-- More items up to a closing brace. -/
def untilBrace (item : Parser α) : Parser (List α) :=
  counted (fun bound (_ : Unit) => upToBrace item bound) ()

/-- More items up to a closing brace: none behind the brace, and else one item and more up to the
brace. -/
theorem untilBrace_eq (hitem : Rereads ahead item) (hungry : Hungry item) :
    untilBrace item = (skip (.symbol .closeBrace) >>= fun found =>
      if found = true then pure []
      else item >>= fun first => (first :: ·) <$> untilBrace item) := by
  refine counted_eq _ (fun g i => skip (.symbol .closeBrace) >>= fun found =>
    if found = true then pure [] else item >>= fun first => (first :: ·) <$> g i)
    (fun _ => ?_) (fun _ _ => rfl) (fun g g' i ts h => ?_) ()
  · -- where no tokens are left, the item says what is missing
    obtain ⟨expected, hnil⟩ := hungry
    rw [skip_bind_of_not_starts not_starts_nil]
    exact (bind_of_error hnil).trans (bind_of_error hnil).symm
  · refine skip_bind_congr (fun _ _ _ => rfl) ?_
    exact bind_congr_of_ok fun first mid hfirst =>
      map_congr_run (h i mid (hitem.length_lt hungry hfirst))

end Parser

end Lucha
