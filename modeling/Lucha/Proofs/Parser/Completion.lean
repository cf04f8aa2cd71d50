import Lucha.Proofs.Parser.Lookahead

/-!
# What a reader lacks

Where a run fails, a reader has taken some tokens and refuses the next one, or finds none. What it
has taken can be completed (`CompletesAt`): with some other tokens behind it would have answered.
Readers of which this is true at every token, and whose runs are repeated where other tokens follow,
are `Steady`, and so is what is put together from them. Behind a reader that would go on, there must
follow what starts with a token it would not go on with (`Shuns`), or the tokens that complete the
second reader might complete the first.
-/

namespace Lucha.Parser

variable {α β τ : Type} {ts mid rest more taken : List Token} {ahead ahead' : List TokenKind}
  {p q item : Parser α} {f : α → Parser β} {a : α} {kind : TokenKind}

/-- Where the run fails, some tokens in place of those left would have made the reader answer. -/
def CompletesAt (p : Parser α) (ts : List Token) : Prop :=
  ∀ ⦃fault rest⦄, p ts = .error fault rest →
    ∃ taken more a, ts = taken ++ rest ∧ p (taken ++ more) = .ok a []

/-- What the reader accepts starts with no token of some kinds. -/
def Shuns (kinds : List TokenKind) (p : Parser α) : Prop :=
  ∀ kind ∈ kinds, ∀ ⦃ts a rest⦄, p ts = .ok a rest → ¬ Starts kind ts

/-- The run is repeated where other tokens follow, and what it takes can be completed. -/
structure SteadyAt (ahead : List TokenKind) (p : Parser α) (ts : List Token) : Prop where
  rereads : ∃ taken, RereadsAt ahead p ts taken
  completes : CompletesAt p ts

/-- Every run of the reader is repeated where other tokens follow, and can be completed. -/
def Steady (ahead : List TokenKind) (p : Parser α) : Prop :=
  ∀ ts, SteadyAt ahead p ts

theorem Steady.rereads (h : Steady ahead p) : Rereads ahead p :=
  fun ts => (h ts).rereads

/-- There are tokens that the reader accepts. -/
theorem Steady.exists_ok (h : Steady ahead p) : ∃ ts a, p ts = .ok a [] := by
  cases hrun : p [] with
  | ok a rest =>
    obtain ⟨taken, htaken, -⟩ := h.rereads.exists_append hrun
    obtain ⟨rfl, rfl⟩ := List.append_eq_nil_iff.mp htaken.symm
    exact ⟨[], a, hrun⟩
  | error fault rest =>
    obtain ⟨taken, more, a, -, hok⟩ := (h []).completes hrun
    exact ⟨taken ++ more, a, hok⟩

/-- A run that can be completed does not come to an inconsistency. -/
theorem SteadyAt.ne_inconsistent (h : SteadyAt ahead p ts) {inconsistency : Inconsistency} :
    p ts ≠ .error (.inconsistent inconsistency) rest := by
  intro hrun
  obtain ⟨taken, more, a, htaken, hok⟩ := h.completes hrun
  obtain ⟨taken', happend, -, hreread⟩ := h.rereads
  rw [hrun] at happend hreread
  obtain rfl := List.append_cancel_right (happend.trans htaken)
  cases (@hreread more trivial).symm.trans hok

/-! ### Readers one after the other -/

/-- A reader and what goes on from its answer. -/
theorem CompletesAt.bind (hp : CompletesAt p ts) (hreads : Rereads ahead p)
    (hf : ∀ a mid, p ts = .ok a mid → CompletesAt (f a) mid)
    (hsome : ∀ a, ∃ ts b, f a ts = .ok b []) (hshuns : ∀ a, Shuns ahead (f a)) :
    CompletesAt (p >>= f) ts := by
  intro fault rest hfault
  cases hrun : p ts with
  | error fault' rest' =>
    cases (bind_of_error hrun).symm.trans hfault
    obtain ⟨taken, more, a, htaken, hok⟩ := hp hrun
    -- what the reader lacks, and then something that is accepted behind it
    obtain ⟨behind, b, hbehind⟩ := hsome a
    have hgoes := hreads.ok_append hok fun kind hkind => hshuns a kind hkind hbehind
    refine ⟨taken, more ++ behind, b, htaken, ?_⟩
    rw [← List.append_assoc, bind_of_ok hgoes]
    exact hbehind
  | ok a mid =>
    rw [bind_of_ok hrun] at hfault
    obtain ⟨taken', more, b, hmid, hok⟩ := hf a mid hrun hfault
    obtain ⟨taken, htaken, hreread⟩ := hreads.exists_append hrun
    have hgoes := hreread (taken' ++ more) fun kind hkind hstarts =>
      absurd hstarts (hshuns a kind hkind hok)
    refine ⟨taken ++ taken', more, b, by rw [htaken, hmid, List.append_assoc], ?_⟩
    rw [List.append_assoc, bind_of_ok hgoes]
    exact hok

/-- A reader that would not go on, and what goes on from its answer. -/
theorem Steady.bindAt (hp : Steady [] p)
    (hf : ∀ a mid, p ts = .ok a mid → SteadyAt ahead (f a) mid)
    (hsome : ∀ a, ∃ ts b, f a ts = .ok b []) : SteadyAt ahead (p >>= f) ts where
  rereads :=
    have ⟨_, htaken⟩ := hp.rereads ts
    htaken.bind (fun a mid hrun => (hf a mid hrun).rereads) (.inl rfl)
  completes :=
    (hp ts).completes.bind hp.rereads (fun a mid hrun => (hf a mid hrun).completes) hsome
      fun _ => nofun

/-- A reader, and what goes on from its answer with a token that the reader would not take. -/
theorem Steady.bindAt_ahead (hp : Steady ahead p)
    (hf : ∀ a mid, p ts = .ok a mid → SteadyAt ahead' (f a) mid)
    (hsome : ∀ a, ∃ ts b, f a ts = .ok b []) (hungry : ∀ a, Hungry (f a))
    (hshuns : ∀ a, Shuns ahead (f a)) : SteadyAt ahead' (p >>= f) ts where
  rereads :=
    have ⟨_, htaken⟩ := hp.rereads ts
    htaken.bind (fun a mid hrun => (hf a mid hrun).rereads) (.inr hungry)
  completes :=
    (hp ts).completes.bind hp.rereads (fun a mid hrun => (hf a mid hrun).completes) hsome hshuns

theorem SteadyAt.map (h : SteadyAt ahead p ts) (f : α → β) : SteadyAt ahead (f <$> p) ts where
  rereads :=
    have ⟨taken, htaken⟩ := h.rereads
    ⟨taken, htaken.map f⟩
  completes := by
    intro fault rest hfault
    cases hrun : p ts with
    | error fault' rest' =>
      cases (map_of_error hrun).symm.trans hfault
      obtain ⟨taken, more, a, htaken, hok⟩ := h.completes hrun
      exact ⟨taken, more, f a, htaken, map_of_ok hok⟩
    | ok a rest' => cases (map_of_ok hrun).symm.trans hfault

/-- A reader that is entered behind a token. -/
theorem SteadyAt.cons {token : Token} (h : SteadyAt ahead p ts)
    (hrun : ∀ ts, q (token :: ts) = p ts) : SteadyAt ahead q (token :: ts) where
  rereads :=
    have ⟨taken, htaken⟩ := h.rereads
    ⟨token :: taken, htaken.cons hrun⟩
  completes := by
    intro fault rest hfault
    rw [hrun] at hfault
    obtain ⟨taken, more, a, rfl, hok⟩ := h.completes hfault
    exact ⟨token :: taken, more, a, rfl, (hrun _).trans hok⟩

/-- A reader that is entered where no token of a kind follows, and accepts none. -/
theorem SteadyAt.of_not_starts (h : SteadyAt ahead p ts) (hstop : ¬ Starts kind ts)
    (hungry : Hungry p) (hshuns : Shuns [kind] p)
    (hrun : ∀ ts, ¬ Starts kind ts → q ts = p ts) : SteadyAt ahead q ts where
  rereads :=
    have ⟨taken, htaken⟩ := h.rereads
    ⟨taken, htaken.congr_head? hungry fun ts' hhead => hrun ts' (by rwa [Starts, hhead])⟩
  completes := by
    intro fault rest hfault
    rw [hrun ts hstop] at hfault
    obtain ⟨taken, more, a, htaken, hok⟩ := h.completes hfault
    have hstarts := hshuns kind (List.mem_singleton.mpr rfl) hok
    exact ⟨taken, more, a, htaken, (hrun _ hstarts).trans hok⟩

/-- A reader that is entered where a token of a kind follows, and accepts no other. -/
theorem SteadyAt.of_starts (h : SteadyAt ahead p ts) (hstarts : Starts kind ts)
    (hungry : Hungry p) (honly : ∀ ⦃ts a rest⦄, p ts = .ok a rest → Starts kind ts)
    (hrun : ∀ ts, Starts kind ts → q ts = p ts) : SteadyAt ahead q ts where
  rereads :=
    have ⟨taken, htaken⟩ := h.rereads
    ⟨taken, htaken.congr_head? hungry fun ts' hhead => hrun ts' (by rwa [Starts, hhead])⟩
  completes := by
    intro fault rest hfault
    rw [hrun ts hstarts] at hfault
    obtain ⟨taken, more, a, htaken, hok⟩ := h.completes hfault
    exact ⟨taken, more, a, htaken, (hrun _ (honly hok)).trans hok⟩

/-- A reader that answers at once where no token of a kind follows, and would go on with one. -/
theorem steadyAt_of_not_starts (hkind : kind ∈ ahead) (hstop : ¬ Starts kind ts)
    (hrun : ∀ ts, ¬ Starts kind ts → q ts = .ok a ts) : SteadyAt ahead q ts where
  rereads := ⟨[], rereadsAt_of_not_starts hkind hstop hrun⟩
  completes := by
    intro fault rest hfault
    cases (hrun ts hstop).symm.trans hfault

theorem Hungry.bind (h : Hungry p) : Hungry (p >>= f) :=
  have ⟨expected, hnil⟩ := h
  ⟨expected, bind_of_error hnil⟩

theorem Hungry.map (h : Hungry p) (f : α → β) : Hungry (f <$> p) :=
  have ⟨expected, hnil⟩ := h
  ⟨expected, map_of_error hnil⟩

/-- What a reader starts with is what its first part starts with. -/
theorem Shuns.bind {kinds : List TokenKind} (h : Shuns kinds p) : Shuns kinds (p >>= f) := by
  intro kind hkind ts b rest hrun
  obtain ⟨a, mid, hok, -⟩ := bind_eq_ok_iff.mp hrun
  exact h kind hkind hok

theorem Shuns.map {kinds : List TokenKind} (h : Shuns kinds p) (f : α → β) :
    Shuns kinds (f <$> p) := by
  intro kind hkind ts b rest hrun
  obtain ⟨a, hok, -⟩ := map_eq_ok_iff.mp hrun
  exact h kind hkind hok

theorem Shuns.mono {kinds kinds' : List TokenKind} (h : Shuns kinds p) (hsub : kinds' ⊆ kinds) :
    Shuns kinds' p :=
  fun kind hkind => h kind (hsub hkind)

/-- A reader that goes on behind a token, or else answers at once. -/
theorem steadyAt_skip (hp : ∀ token tail, ts = token :: tail → SteadyAt ahead p tail)
    (hkind : kind ∈ ahead) :
    SteadyAt ahead (skip kind >>= fun found => if found = true then p else pure a) ts := by
  by_cases hstarts : Starts kind ts
  · cases ts with
    | nil => exact absurd hstarts not_starts_nil
    | cons token ts =>
      exact (hp token ts rfl).cons fun ts => skip_bind_of_kind (starts_cons.mp hstarts)
  · exact steadyAt_of_not_starts hkind hstarts fun ts hstop => skip_bind_of_not_starts hstop

theorem steady_pure (a : α) : Steady [] (pure a : Parser α) :=
  fun ts => ⟨rereads_pure a ts, fun _ _ => nofun⟩

/-- What a reader would go on with may be more than it does. -/
theorem Steady.mono (h : Steady ahead p) (hsub : ahead ⊆ ahead') : Steady ahead' p :=
  fun ts => ⟨h.rereads.mono hsub ts, (h ts).completes⟩

theorem Steady.map (h : Steady ahead p) (f : α → β) : Steady ahead (f <$> p) :=
  fun ts => (h ts).map f

/-- Steady readers one after the other, where the first one does not look ahead. -/
theorem Steady.bind (hp : Steady [] p) (hf : ∀ a, Steady ahead (f a)) : Steady ahead (p >>= f) :=
  fun _ => hp.bindAt (fun a mid _ => hf a mid) fun a => (hf a).exists_ok

/-- Steady readers one after the other, where the first one looks ahead and the others start with
none of the kinds that it looks for. -/
theorem Steady.bind_ahead (hp : Steady ahead p) (hf : ∀ a, Steady ahead' (f a))
    (hungry : ∀ a, Hungry (f a)) (hshuns : ∀ a, Shuns ahead (f a)) : Steady ahead' (p >>= f) :=
  fun _ => hp.bindAt_ahead (fun a mid _ => hf a mid) (fun a => (hf a).exists_ok) hungry hshuns

/-! ### Readers of one token -/

/-- A run that refuses the token where it began, or finds none: there could be anything else that
the reader accepts. -/
theorem completesAt_of_refused (hsome : ∃ ts a, p ts = .ok a [])
    (h : ∀ ⦃fault rest⦄, p ts = .error fault rest → rest = ts) : CompletesAt p ts := by
  intro fault rest hfault
  obtain ⟨more, a, hok⟩ := hsome
  obtain rfl := h hfault
  exact ⟨[], more, a, rfl, hok⟩

/-- A reader that takes one token or refuses it. -/
theorem steady_of_token (hungry : Hungry p)
    (hcons : ∀ token, (∃ a, ∀ ts, p (token :: ts) = .ok a ts) ∨
      ∃ fault, ∀ ts, p (token :: ts) = .error (.at fault token) (token :: ts))
    (hsome : ∃ ts a, p ts = .ok a []) : Steady [] p := by
  obtain ⟨expected, hnil⟩ := hungry
  intro ts
  cases ts with
  | nil =>
    refine ⟨⟨[], rereadsAt_nil hnil⟩, completesAt_of_refused hsome fun fault rest hfault => ?_⟩
    cases hnil.symm.trans hfault
    rfl
  | cons token ts =>
    obtain ⟨a, hok⟩ | ⟨fault, hfails⟩ := hcons token
    · refine ⟨⟨[token], .of_run (hok ts) rfl (fun _ _ h => h) fun more _ => hok more⟩, ?_⟩
      exact fun fault rest hfault => nomatch (hok ts).symm.trans hfault
    · refine ⟨⟨[], rereadsAt_refused hfails⟩, completesAt_of_refused hsome fun _ _ hfault => ?_⟩
      cases (hfails ts).symm.trans hfault
      rfl

/-- A reader of one token is steady if there is a token that it takes. -/
theorem steady_accept {expected : String} (pick : TokenKind → Option α) {k : TokenKind}
    (h : pick k = some a) : Steady [] (accept expected pick) := by
  refine steady_of_token ⟨expected, rfl⟩ (fun token => ?_) ⟨[⟨k, .none⟩], (a, .none), ?_⟩
  · cases hpick : pick token.kind with
    | some a => exact .inl ⟨(a, token.span), fun ts => by rw [accept, hpick]⟩
    | none => exact .inr ⟨.mismatch expected token.kind, fun ts => by rw [accept, hpick]; rfl⟩
  · rw [accept, h]

theorem steady_expect (kind : TokenKind) : Steady [] (expect kind) :=
  (steady_accept _ (if_pos rfl)).map Prod.snd

theorem steady_word (keyword : Keyword) : Steady [] (word keyword) :=
  steady_expect _

theorem steady_mark (symbol : Symbol) : Steady [] (mark symbol) :=
  steady_expect _

theorem steady_choice {expected : String} (pick : Keyword → Option α) {k : Keyword}
    (h : pick k = some a) : Steady [] (choice expected pick) :=
  (steady_accept _ (k := .keyword k) h).map Prod.fst

theorem steady_ident (what : String) : Steady [] (ident what) :=
  steady_accept _ (k := .ident "") rfl

/-- Wherever the reader fails for want of a number, the number zero would do. -/
theorem steady_number (what : String) : Steady [] (number what) := by
  refine steady_of_token ⟨what, rfl⟩ (fun token => ?_) ⟨[⟨.number 0, .none⟩], 0, rfl⟩
  obtain ⟨kind, span⟩ := token
  cases kind with
  | number value =>
    cases hvalue : Quantity.ofNat? value with
    | some quantity => exact .inl ⟨quantity, fun ts => by simp [number, hvalue]⟩
    | none => exact .inr ⟨.outOfRange what, fun ts => by simp [number, hvalue, refuseFor]⟩
  | _ => exact .inr ⟨.mismatch what _, fun ts => rfl⟩

/-- A mark and what follows it start with nothing else. -/
theorem shuns_mark {symbol : Symbol} {kinds : List TokenKind} (h : .symbol symbol ∉ kinds) :
    Shuns kinds (mark symbol >>= fun _ => q) := by
  intro kind hkind ts b rest hrun hstarts
  obtain ⟨mid, hmark, -⟩ := mark_bind_eq_ok_iff.mp hrun
  obtain rfl := hmark.starts_iff.mp hstarts
  exact h hkind

/-- What stands for a tree that is read starts with none of the kinds that trees avoid. -/
theorem Reads.shuns {Valid : τ → Prop} {leaves : τ → List Leaf} {value : τ → α}
    {kinds : List TokenKind} (hreads : Reads p Valid leaves value)
    (havoids : Avoids kinds Valid leaves) : Shuns kinds p := by
  intro kind hkind ts a rest hrun
  obtain ⟨t, ⟨hvalid, hspells⟩, -⟩ := hreads.mp hrun
  rw [← List.append_nil (leaves t)] at hspells
  exact havoids.not_starts hvalid hspells hkind

/-! ### Repetitions -/

/-- A row of items may end where no comma follows, and goes on with a steady item where one does. -/
theorem steady_moreAfterCommas (hitem : Steady [] item) :
    Steady [.symbol .comma] (moreAfterCommas item) := by
  have heq := moreAfterCommas_eq hitem.rereads
  have hnil : moreAfterCommas item [] = .ok [] [] := rfl
  intro ts
  -- by induction on the tokens that are left, which are fewer behind each item
  induction hn : ts.length using Nat.strongRecOn generalizing ts with
  | _ n ih =>
    rw [heq]
    refine steadyAt_skip (fun token tail htail => ?_) (List.mem_singleton.mpr rfl)
    rw [htail, List.length_cons] at hn
    refine hitem.bindAt (fun first mid hfirst => ?_) fun first => ⟨[], [first], map_of_ok hnil⟩
    have hle := hitem.rereads.length_le hfirst
    exact (ih mid.length (by omega) mid rfl).map (first :: ·)

theorem steady_commaSeparated (hitem : Steady [] item) :
    Steady [.symbol .comma] (commaSeparated item) :=
  hitem.bind fun first => (steady_moreAfterCommas hitem).map (first :: ·)

/-- Neither the brace nor another item is read without a token. -/
theorem hungry_untilBrace (hitem : Rereads ahead item) (hungry : Hungry item) :
    Hungry (untilBrace item) := by
  have ⟨expected, hnil⟩ := hungry
  rw [untilBrace_eq hitem hungry]
  exact ⟨expected, (skip_bind_of_not_starts not_starts_nil).trans (bind_of_error hnil)⟩

/-- More items up to a closing brace start with no kinds that neither an item nor the brace is
of. -/
theorem shuns_untilBrace {kinds : List TokenKind} (hitem : Rereads ahead item)
    (hungry : Hungry item) (hbrace : .symbol .closeBrace ∉ kinds) (hshuns : Shuns kinds item) :
    Shuns kinds (untilBrace item) := by
  intro kind hkind ts as rest hrun
  rw [untilBrace_eq hitem hungry, skip_bind_eq_ok_iff] at hrun
  obtain ⟨mid, hmark, -⟩ | ⟨-, hread⟩ := hrun
  · intro hstarts
    obtain rfl := hmark.starts_iff.mp hstarts
    exact hbrace hkind
  · obtain ⟨first, mid, hfirst, -⟩ := bind_eq_ok_iff.mp hread
    exact hshuns kind hkind hfirst

/-- Items up to a closing brace are steady: with the brace in place of the tokens left, any run of
them is complete. -/
theorem steady_untilBrace (hitem : Steady ahead item) (hungry : Hungry item)
    (hbrace : .symbol .closeBrace ∉ ahead) (hshuns : Shuns (.symbol .closeBrace :: ahead) item) :
    Steady [] (untilBrace item) := by
  have heq := untilBrace_eq hitem.rereads hungry
  have hmore := shuns_untilBrace hitem.rereads hungry hbrace fun kind hkind =>
    hshuns kind (List.mem_cons_of_mem _ hkind)
  have hmoreHungry := hungry_untilBrace hitem.rereads hungry
  have hclose : untilBrace item [⟨.symbol .closeBrace, .none⟩] = .ok [] [] := rfl
  intro ts
  induction hn : ts.length using Nat.strongRecOn generalizing ts with
  | _ n ih =>
    rw [heq]
    by_cases hstarts : Starts (.symbol .closeBrace) ts
    · cases ts with
      | nil => exact absurd hstarts not_starts_nil
      | cons token ts =>
        exact .cons (steady_pure [] ts) fun ts => skip_bind_of_kind (starts_cons.mp hstarts)
    · have hclosed : Shuns [.symbol .closeBrace] item := hshuns.mono (by simp)
      refine .of_not_starts (hitem.bindAt_ahead (fun first mid hfirst => ?_) (fun first => ?_)
        (fun first => hmoreHungry.map _) fun first => hmore.map _) hstarts hungry.bind hclosed.bind
        fun ts hstop => skip_bind_of_not_starts hstop
      · have hlt := hitem.rereads.length_lt hungry hfirst
        exact (ih mid.length (by omega) mid rfl).map (first :: ·)
      · exact ⟨_, [first], map_of_ok hclose⟩

/-- Items between braces, where items shun the closing brace and what they would go on with. -/
theorem steady_braced (hitem : Steady ahead item) (hungry : Hungry item)
    (hbrace : .symbol .closeBrace ∉ ahead) (hshuns : Shuns (.symbol .closeBrace :: ahead) item) :
    Steady [] (braced item) := by
  have hmore := steady_untilBrace hitem hungry hbrace hshuns
  have hrest (first : α) : Steady [] ((first :: ·) <$> untilBrace item) := hmore.map _
  have hmoreShuns := shuns_untilBrace hitem.rereads hungry hbrace fun kind hkind =>
    hshuns kind (List.mem_cons_of_mem _ hkind)
  exact (steady_mark .openBrace).bind fun _ => hitem.bind_ahead hrest
    (fun _ => (hungry_untilBrace hitem.rereads hungry).map _) fun _ => hmoreShuns.map _

end Lucha.Parser
