/-!
# Reserved words

The words a fight program cannot use as names. `Keyword.ofText?` finds the reserved word with a
given lower-case spelling; `ofText?_eq_some_iff` says that it inverts `Keyword.text`.
-/

namespace Lucha

/-- A reserved word. -/
inductive Keyword where
  | luchador | stats | acciones | golpe | patada | bloqueo | combos
  | simulacion | config | luchadores | inicia | turnosMax | pelea | turno | vs
  | si | sino | usa | self | oponente
  | hp | st | stReq | dano | costo | altura | forma | giratoria
  | alta | media | baja | frontal | lateral | no
deriving DecidableEq

namespace Keyword

/-- The spelling of a reserved word. -/
def text : Keyword → String
  | luchador => "luchador"
  | stats => "stats"
  | acciones => "acciones"
  | golpe => "golpe"
  | patada => "patada"
  | bloqueo => "bloqueo"
  | combos => "combos"
  | simulacion => "simulacion"
  | config => "config"
  | luchadores => "luchadores"
  | inicia => "inicia"
  | turnosMax => "turnos_max"
  | pelea => "pelea"
  | turno => "turno"
  | vs => "vs"
  | si => "si"
  | sino => "sino"
  | usa => "usa"
  | self => "self"
  | oponente => "oponente"
  | hp => "hp"
  | st => "st"
  | stReq => "st_req"
  | dano => "daño"
  | costo => "costo"
  | altura => "altura"
  | forma => "forma"
  | giratoria => "giratoria"
  | alta => "alta"
  | media => "media"
  | baja => "baja"
  | frontal => "frontal"
  | lateral => "lateral"
  | no => "no"

/-- All reserved words. -/
def all : List Keyword :=
  [luchador, stats, acciones, golpe, patada, bloqueo, combos, simulacion, config, luchadores,
    inicia, turnosMax, pelea, turno, vs, si, sino, usa, self, oponente, hp, st, stReq, dano, costo,
    altura, forma, giratoria, alta, media, baja, frontal, lateral, no]

/-- The list of reserved words is complete. -/
theorem mem_all (k : Keyword) : k ∈ all := by
  cases k <;> decide

/-- The reserved word with a spelling. -/
def ofText? (word : String) : Option Keyword :=
  all.find? (·.text == word)

@[simp]
theorem ofText?_text (k : Keyword) : ofText? k.text = some k := by
  cases k <;> decide

/-- A text is looked up as the reserved word that it is. -/
theorem ofText?_eq_some_iff {word : String} {k : Keyword} :
    ofText? word = some k ↔ word = k.text := by
  constructor
  · intro h
    have := List.find?_some h
    simpa using Eq.symm (beq_iff_eq.mp this)
  · rintro rfl
    exact ofText?_text k

end Keyword

end Lucha
