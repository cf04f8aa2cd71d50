import Lucha.Proofs.Token.Passing

/-!
# Asking a lexer

A lexer can be asked for the next token in two ways, be asked what strays it has passed, and have
them taken away, in any order. What it hands out and tells is the same in every order: it goes
through the pieces of its source text once (`Lexer.Progress`), each request for a token goes on from
where the last one stopped, and the other requests do not move it (`Lexer.tracks_serve`). So the
tokens are those of the text, and the strays those before the last token that was looked for
(`Lexer.serve_in_order`).
-/

namespace Lucha

namespace Lexer

/-! ### Requests -/

/-- What a lexer can be asked. -/
inductive Request where
  /-- The next token. -/
  | token
  /-- The next token, if this request has not given the one that ends the text. -/
  | next
  /-- The strays that were passed since they were last taken away. -/
  | strays
  /-- The strays, which are taken away. -/
  | takeStrays
deriving DecidableEq

/-- What a lexer answers. -/
inductive Reply where
  | token (token : Token)
  | nothing
  | strays (strays : List Stray)
deriving DecidableEq

/-- The token of an answer. -/
def Reply.token? : Reply → Option Token
  | .token given => some given
  | _ => none

/-- What a lexer answers to a request, and the lexer after it. -/
def answer (l : Lexer) : Request → Reply × Lexer
  | .token => (.token l.take.1, l.take.2)
  | .next => (l.takeNext?.1.elim .nothing .token, l.takeNext?.2)
  | .strays => (.strays l.strays, l)
  | .takeStrays => (.strays l.takeStrays.1, l.takeStrays.2)

/-- Requests with the answers to them. -/
abbrev Transcript := List (Request × Reply)

/-- What a lexer answers to requests one after the other, and the lexer after them. -/
def serve (l : Lexer) : List Request → Transcript × Lexer
  | [] => ([], l)
  | request :: later =>
    let served := (l.answer request).2.serve later
    ((request, (l.answer request).1) :: served.1, served.2)

/-- A request behind others is answered by the lexer after them. -/
theorem serve_concat (l : Lexer) (earlier : List Request) (request : Request) :
    l.serve (earlier ++ [request])
      = ((l.serve earlier).1 ++ [(request, ((l.serve earlier).2.answer request).1)],
        ((l.serve earlier).2.answer request).2) := by
  induction earlier generalizing l with
  | nil => rfl
  | cons first earlier ih =>
    rw [List.cons_append, serve, ih]
    rfl

namespace Transcript

/-- The tokens that were handed out. -/
def tokens (transcript : Transcript) : List Token :=
  transcript.filterMap (·.2.token?)

/-- The strays that a request takes away. -/
def taken : Request × Reply → List Stray
  | (.takeStrays, .strays strays) => strays
  | _ => []

/-- The strays that were taken away. -/
def takenStrays (transcript : Transcript) : List Stray :=
  transcript.flatMap taken

/-- A request for the next token was answered with the one that ends the text. -/
def Ended (transcript : Transcript) : Prop :=
  ∃ token : Token, (.next, .token token) ∈ transcript ∧ token.kind = .endOfInput

variable (transcript : Transcript) (request : Request) (reply : Reply)

@[simp]
theorem tokens_concat : tokens (transcript ++ [(request, reply)])
    = tokens transcript ++ reply.token?.toList := by
  cases reply <;> simp [tokens, Reply.token?]

@[simp]
theorem takenStrays_concat : takenStrays (transcript ++ [(request, reply)])
    = takenStrays transcript ++ taken (request, reply) := by
  simp [takenStrays]

@[simp]
theorem ended_concat : Ended (transcript ++ [(request, reply)]) ↔
    Ended transcript ∨
      request = .next ∧ ∃ token, reply = .token token ∧ token.kind = .endOfInput := by
  simp only [Ended, List.mem_append, List.mem_singleton, Prod.mk.injEq, or_and_right, exists_or,
    eq_comm (a := Request.next), eq_comm (b := reply), and_assoc, exists_and_left]

end Transcript

/-! ### Going through a source text -/

/-- The tokens that were handed out of a scan and the strays that were passed, with some pieces
still ahead. -/
inductive Progress (s : Scan) : List Token → List Stray → List Placed → Prop
  /-- The last of the pieces that are passed, if any are, is a token. -/
  | midway {passed ahead : List Placed} (h : s.pieces = passed ++ ahead)
    (hlast : ∀ placed ∈ passed.getLast?, ∃ token, placed.token? = some token) :
    Progress s (passed.filterMap Placed.token?) (passed.filterMap Placed.stray?) ahead
  /-- All pieces are passed, and the token that ends the text was handed out at least once. -/
  | ended (again : Nat) :
    Progress s (s.tokens ++ List.replicate (again + 1) s.endToken) s.strays []

namespace Progress

variable {s : Scan} {tokens : List Token} {strays : List Stray} {ahead : List Placed}

/-- Seeking a token goes on from where the last one stopped. -/
theorem seek (h : Progress s tokens strays ahead) :
    Progress s (tokens ++ [(Lexer.seek ahead).1.getD s.endToken])
      (strays ++ (Lexer.seek ahead).2.1) (Lexer.seek ahead).2.2 := by
  have hkept := strays_seek ahead
  cases h with
  | ended again =>
    have hended := Progress.ended (s := s) (again + 1)
    rw [List.replicate_succ', ← List.append_assoc, ← List.append_nil s.strays] at hended
    exact hended
  | @midway passed ahead h hlast =>
    cases hseek : (Lexer.seek ahead).1 with
    | none =>
      have htokens : s.tokens = passed.filterMap Placed.token? := by
        rw [Scan.tokens, h, List.filterMap_append, filterMap_of_seek_eq_none hseek,
          List.append_nil]
      have hbehind := behind_of_seek_eq_none hseek
      rw [hbehind, List.filterMap_nil, List.append_nil] at hkept
      rw [hbehind, hkept, ← List.filterMap_append, ← h, ← htokens]
      exact .ended 0
    | some token =>
      obtain ⟨before, placed, heq, hbefore, hplaced, hstrays⟩ := exists_of_seek_eq_some hseek
      have hpieces : s.pieces = (passed ++ before ++ [placed]) ++ (Lexer.seek ahead).2.2 := by
        rw [h, List.append_assoc, List.append_assoc, List.singleton_append, ← heq]
      have hmidway := Progress.midway hpieces fun last hmem => by
        rw [List.getLast?_concat] at hmem
        cases hmem
        exact ⟨token, hplaced⟩
      have htokens : (passed ++ before ++ [placed]).filterMap Placed.token?
          = passed.filterMap Placed.token? ++ [token] := by
        simp [hbefore, hplaced]
      have hpassed : (passed ++ before ++ [placed]).filterMap Placed.stray?
          = passed.filterMap Placed.stray? ++ before.filterMap Placed.stray? := by
        simp [Placed.stray?_of_token? hplaced]
      rw [htokens, hpassed, ← hstrays] at hmidway
      exact hmidway

variable {source : String}

/-- What was handed out are the first tokens of the text, and then the one that ends it. -/
theorem exists_prefix (h : Progress (Scan.ofSource source) tokens strays ahead) :
    ∃ again, tokens <+: Lexer.tokens source
      ++ List.replicate again (Scan.ofSource source).endToken := by
  rw [tokens_eq]
  cases h with
  | midway h =>
    refine ⟨0, .trans ?_ (List.prefix_append _ _)⟩
    refine .trans ?_ (List.prefix_append _ _)
    rw [Scan.tokens, h, List.filterMap_append]
    exact List.prefix_append _ _
  | ended again =>
    exact ⟨again, by simp [List.replicate_succ]⟩

/-- The strays that were passed are those before the last token, and none before the first. -/
theorem strays_eq (h : Progress (Scan.ofSource source) tokens strays ahead) :
    (tokens = [] → strays = []) ∧ ∀ token ∈ tokens.getLast?,
      strays = (Scan.ofSource source).strays.filter (·.IsBefore token) ∧
        (token.kind = .endOfInput → strays = (Scan.ofSource source).strays) := by
  cases h with
  | @midway passed ahead h hlast =>
    obtain rfl | ⟨before, placed, rfl⟩ := List.eq_nil_or_concat passed
    · exact ⟨fun _ => rfl, nofun⟩
    rw [List.concat_eq_append] at h hlast ⊢
    obtain ⟨token, hplaced⟩ := hlast placed (List.getLast?_concat ..)
    have hmem : token ∈ (Scan.ofSource source).tokens :=
      List.mem_filterMap.mpr ⟨placed, by simp [h], hplaced⟩
    rw [List.append_assoc] at h
    have hfilter := Scan.filter_strays h hplaced
    simp [hplaced, Placed.stray?_of_token? hplaced, ← hfilter, Scan.ofSource,
      Scan.kind_ne_endOfInput hmem]
  | ended again =>
    refine ⟨fun hnil => by simp at hnil, fun token htoken => ⟨?_, fun _ => rfl⟩⟩
    rw [List.replicate_succ', ← List.append_assoc, List.getLast?_concat] at htoken
    cases htoken
    exact (List.filter_eq_self.mpr fun s hs => decide_eq_true (Scan.isBefore_endToken hs)).symm

end Progress

/-! ### Serving requests -/

/-- A lexer stands where the requests of a transcript have led it. -/
structure Tracks (source : String) (transcript : Transcript) (l : Lexer) : Prop where
  stop : l.stop = (Scan.ofSource source).stop
  progress : Progress (Scan.ofSource source) transcript.tokens
    (transcript.takenStrays ++ l.strays) l.ahead
  finished : l.finished = true ↔ transcript.Ended

variable {source : String} {transcript : Transcript} {l : Lexer}

theorem tracks_ofSource : Tracks source [] (ofSource source) where
  stop := rfl
  progress := @Progress.midway _ [] _ rfl nofun
  finished := ⟨nofun, fun ⟨_, hmem, _⟩ => nomatch hmem⟩

/-- Taking a token goes on from where the last one was taken. -/
theorem Tracks.take (h : Tracks source transcript l) :
    Progress (Scan.ofSource source) (transcript.tokens ++ [l.take.1])
      (transcript.takenStrays ++ l.take.2.strays) l.take.2.ahead := by
  have hseek := h.progress.seek
  rw [List.append_assoc] at hseek
  rw [Lexer.take, h.stop]
  exact hseek

theorem takeNext?_of_finished (h : l.finished = true) : l.takeNext? = (none, l) :=
  if_pos h

theorem takeNext?_of_not_finished (h : l.finished = false) :
    l.takeNext? = (some l.take.1, { l.take.2 with finished := l.take.1.kind = .endOfInput }) := by
  rw [takeNext?, h]
  rfl

/-- One request leads on from where the earlier ones have led. -/
theorem Tracks.answer (h : Tracks source transcript l) (request : Request) :
    Tracks source (transcript ++ [(request, (l.answer request).1)]) (l.answer request).2 := by
  cases request with
  | token =>
    refine ⟨h.stop, ?_, ?_⟩
    · simpa [Lexer.answer, Reply.token?, Transcript.taken] using h.take
    · exact h.finished.trans (by simp [Lexer.answer])
  | next =>
    rw [Lexer.answer]
    cases hfinished : l.finished with
    | true =>
      rw [takeNext?_of_finished hfinished]
      refine ⟨h.stop, ?_, ?_⟩
      · simpa [Reply.token?, Transcript.taken] using h.progress
      · simpa using h.finished
    | false =>
      rw [takeNext?_of_not_finished hfinished]
      have hopen : ¬ transcript.Ended := by simpa [hfinished] using h.finished
      refine ⟨h.stop, ?_, ?_⟩
      · simpa [Reply.token?, Transcript.taken] using h.take
      · simp [hopen]
  | strays =>
    refine ⟨h.stop, ?_, ?_⟩
    · simpa [Lexer.answer, Reply.token?, Transcript.taken] using h.progress
    · simpa [Lexer.answer] using h.finished
  | takeStrays =>
    refine ⟨h.stop, ?_, ?_⟩
    · simpa [Lexer.answer, Lexer.takeStrays, Reply.token?, Transcript.taken] using h.progress
    · exact h.finished.trans (by simp)

/-- Requests lead a lexer through its source text, in whatever order they come. -/
theorem tracks_serve (source : String) (requests : List Request) :
    Tracks source ((ofSource source).serve requests).1 ((ofSource source).serve requests).2 := by
  induction requests using List.reverseRecOn with
  | nil => exact tracks_ofSource
  | append_singleton earlier request ih =>
    rw [serve_concat]
    exact ih.answer request

/-- Whatever a lexer is asked, and in whatever order, it hands out one stream of tokens and tells
one list of strays. The tokens that it hands out for either request are the first ones of the
source text, and behind them the one that ends it again and again. A request for the next token is
answered with nothing exactly if an earlier one was answered with the token that ends the text.
The strays that were taken away and those that can still be told are together those before the
last token that was handed out; so they are none before the first token, and all where the text
has ended. -/
theorem serve_in_order (source : String) (requests : List Request) :
    let transcript := ((ofSource source).serve requests).1
    let l := ((ofSource source).serve requests).2
    let told := transcript.takenStrays ++ l.strays
    let all := (ofSource source).takeRest.2.strays
    (∃ again last, (tokens source).getLast? = some last ∧ last.kind = .endOfInput ∧
      transcript.tokens <+: tokens source ++ List.replicate again last) ∧
    (l.takeNext?.1 = none ↔ transcript.Ended) ∧
    (transcript.tokens = [] → told = []) ∧
    ∀ token ∈ transcript.tokens.getLast?, told = all.filter (·.IsBefore token) ∧
      (token.kind = .endOfInput → told = all) := by
  have htracks := tracks_serve source requests
  intro transcript l told all
  obtain ⟨again, hprefix⟩ := htracks.progress.exists_prefix
  obtain ⟨hnil, hlast⟩ := htracks.progress.strays_eq
  refine ⟨⟨again, _, ?_, rfl, hprefix⟩, ?_, hnil, ?_⟩
  · rw [tokens_eq, List.getLast?_concat]
  · rw [← htracks.finished]
    cases hfinished : l.finished with
    | true => simp [takeNext?_of_finished hfinished]
    | false => simp [takeNext?_of_not_finished hfinished]
  · rwa [← strays_takeRest] at hlast

/-- Strays that are taken away between two requests are not told again, and the second way to ask
gives the token that ends the text although the first has given it. -/
example : ((ofSource "#;@").serve [.token, .takeStrays, .token, .next, .next, .strays]).1
    = [(.token, .token ⟨.symbol .semicolon, ⟨1, 2, 1, 2⟩⟩), (.takeStrays, .strays [⟨'#', 1, 1⟩]),
      (.token, .token ⟨.endOfInput, ⟨3, 3, 1, 4⟩⟩), (.next, .token ⟨.endOfInput, ⟨3, 3, 1, 4⟩⟩),
      (.next, .nothing), (.strays, .strays [⟨'@', 1, 3⟩])] := by
  decide +kernel

end Lexer

end Lucha
