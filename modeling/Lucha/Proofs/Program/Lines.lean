import Lucha.Program.Printer
import Lucha.Proofs.Grammar.Tree
import Lucha.Proofs.Token.Spelling

/-!
# Lines and what they hold

A line holds the kinds of some leaves if it is put together from chunks of those kinds (`Spelled`).
Lines that hold leaves follow each other freely, because a line feed ends every token: `Prints` says
of some lines that certain leaves are found in them whatever follows, at any indentation.
-/

namespace Lucha

/-! ### Spelling with commas -/

/-- Characters that are put together from chunks with the kinds of some leaves. -/
structure Spelled (cs : List Char) (chunks : List Chunk) (leaves : List Leaf) : Prop where
  text : chunks.flatMap Chunk.text = cs
  legible : ∀ c ∈ chunks, c.kind.Legible
  joins : chunks.IsChain Chunk.Joins
  kinds : chunks.map Chunk.kind = leaves.map Leaf.kind

namespace Spelled

variable {cs cs' : List Char} {chunks chunks' : List Chunk} {leaves leaves' : List Leaf}

/-- What is spelled can go on, if the next chunk can stand behind the last one. -/
theorem append (h : Spelled cs chunks leaves) (h' : Spelled cs' chunks' leaves')
    (hjoins : ∀ a ∈ chunks.getLast?, ∀ b ∈ chunks'.head?, a.Joins b) :
    Spelled (cs ++ cs') (chunks ++ chunks') (leaves ++ leaves') where
  text := by rw [List.flatMap_append, h.text, h'.text]
  legible := List.forall_mem_append.mpr ⟨h.legible, h'.legible⟩
  joins := List.isChain_append.mpr ⟨h.joins, h'.joins, hjoins⟩
  kinds := by rw [List.map_append, List.map_append, h.kinds, h'.kinds]

/-- A blank can be put before what is spelled. -/
theorem spaced {kind : TokenKind} (h : Spelled cs (.close kind :: chunks) leaves) :
    Spelled (' ' :: cs) (.apart kind :: chunks) leaves where
  text := congrArg (' ' :: ·) h.text
  legible := List.forall_mem_cons.mpr (List.forall_mem_cons.mp h.legible)
  joins := by
    cases chunks with
    | nil => exact .singleton _
    | cons b chunks =>
      obtain ⟨hb, hchunks⟩ := List.isChain_cons_cons.mp h.joins
      exact List.isChain_cons_cons.mpr ⟨hb, hchunks⟩
  kinds := h.kinds

theorem comma : Spelled [','] [.close (.symbol .comma)] [.mark .comma] :=
  ⟨rfl, by simp, .singleton _, rfl⟩

/-- Items that follow another, each after a comma and a blank. -/
theorem more {α : Type} {text : α → String} {kind : α → TokenKind} {chunks : α → List Chunk}
    {leaves : α → List Leaf} {items : List α}
    (h : ∀ item ∈ items,
      Spelled (text item).toList (.close (kind item) :: chunks item) (leaves item)) :
    Spelled (items.flatMap fun item => ',' :: ' ' :: (text item).toList)
      (items.flatMap fun item => .close (.symbol .comma) :: .apart (kind item) :: chunks item)
      (items.flatMap fun item => .mark .comma :: leaves item) := by
  induction items with
  | nil => exact ⟨rfl, by simp, .nil, rfl⟩
  | cons item items ih =>
    obtain ⟨hitem, hitems⟩ := List.forall_mem_cons.mp h
    have hfirst := comma.append hitem.spaced (by simp)
    refine hfirst.append (ih hitems) fun a _ b hb => ?_
    cases items with
    | nil => cases hb
    | cons _ _ =>
      cases hb
      exact Chunk.free_symbol (by decide) a

end Spelled

/-- One text and others behind it, with commas between them. -/
theorem toList_intercalate_cons (first : String) (rest : List String) :
    (", ".intercalate (first :: rest)).toList
      = first.toList ++ rest.flatMap fun s => ',' :: ' ' :: s.toList := by
  induction rest generalizing first with
  | nil => simp
  | cons second rest ih =>
    have hsecond := ih second
    rw [String.toList_intercalate] at hsecond ⊢
    simp only [List.map_cons, List.intercalate_cons_cons] at hsecond ⊢
    rw [hsecond]
    simp

/-- Items with commas between them. -/
theorem Spelled.separated {α : Type} {text : α → String} {kind : α → TokenKind}
    {chunks : α → List Chunk} {leaves : α → List Leaf} {first : α} {rest : List α}
    (h : ∀ item ∈ first :: rest,
      Spelled (text item).toList (.close (kind item) :: chunks item) (leaves item)) :
    Spelled (", ".intercalate ((first :: rest).map text)).toList
      (.close (kind first) :: (chunks first ++ rest.flatMap fun item =>
        .close (.symbol .comma) :: .apart (kind item) :: chunks item))
      (Grammar.separated leaves (first :: rest)) := by
  obtain ⟨hfirst, hrest⟩ := List.forall_mem_cons.mp h
  have hall := hfirst.append (Spelled.more hrest) fun a _ b hb => by
    cases rest with
    | nil => cases hb
    | cons _ _ =>
      cases hb
      exact Chunk.free_symbol (by decide) a
  rwa [List.map_cons, toList_intercalate_cons, List.flatMap_map]

/-! ### Lines -/

theorem toList_render (width : Nat) (line : Line) :
    (line.render width).toList
      = List.replicate (line.level * width) ' ' ++ (line.text.toList ++ ['\n']) := by
  simp [Line.render]

/-- In the text of the lines the leaves are found and nothing else, whatever follows. -/
def Prints (lines : List Line) (leaves : List Leaf) : Prop :=
  ∀ (width : Nat) (cs : List Char),
    Text.content ((lines.flatMap fun line => (line.render width).toList) ++ cs)
      = (leaves.map fun leaf => .inl leaf.kind) ++ Text.content cs

/-- In the text of the lines alone the leaves are found and nothing else. -/
theorem Prints.content {lines : List Line} {leaves : List Leaf} (h : Prints lines leaves)
    (width : Nat) : Text.content (String.join (lines.map (Line.render width))).toList
      = (leaves.map Leaf.kind).map .inl := by
  have hlines := h width []
  rw [String.toList_join]
  simpa [List.flatMap_def, Function.comp_def] using hlines

/-- A line of chunks prints the leaves that they spell, at whatever level it stands. -/
theorem Spelled.prints {text : String} {chunks : List Chunk} {leaves : List Leaf}
    (h : Spelled text.toList chunks leaves) (level : Nat) : Prints [⟨level, text⟩] leaves := by
  intro width cs
  have hkinds : (chunks.map fun c => (.inl c.kind : Found))
      = leaves.map fun leaf => .inl leaf.kind := by
    have hmap := congrArg (List.map (Sum.inl : TokenKind → Found)) h.kinds
    simpa [Function.comp_def] using hmap
  rw [List.flatMap_singleton, toList_render, List.append_assoc, Text.content_spaces, ← h.text,
    List.append_assoc]
  exact (Text.content_chunks h.legible h.joins cs).trans (hkinds ▸ rfl)

namespace Prints

variable {lines lines' : List Line} {leaves leaves' : List Leaf}

theorem nil : Prints [] [] := fun _ _ => rfl

theorem append (h : Prints lines leaves) (h' : Prints lines' leaves') :
    Prints (lines ++ lines') (leaves ++ leaves') := by
  intro width cs
  rw [List.flatMap_append, List.append_assoc, h, h', List.map_append, List.append_assoc]

/-- Items one after the other print their leaves one after the other. -/
theorem flatMap {α : Type} {linesOf : α → List Line} {leavesOf : α → List Leaf} {items : List α}
    (h : ∀ item ∈ items, Prints (linesOf item) (leavesOf item)) :
    Prints (items.flatMap linesOf) (items.flatMap leavesOf) := by
  induction items with
  | nil => exact nil
  | cons item items ih =>
    obtain ⟨hitem, hitems⟩ := List.forall_mem_cons.mp h
    exact hitem.append (ih hitems)

/-- The empty line. -/
theorem blank (level : Nat) : Prints [⟨level, ""⟩] [] := by
  have hspelled : Spelled "".toList [] [] := ⟨rfl, by simp, .nil, rfl⟩
  exact hspelled.prints level

/-- The line of a closing brace. -/
theorem close (level : Nat) : Prints [⟨level, "\x7d"⟩] [.mark .closeBrace] := by
  have hspelled : Spelled "\x7d".toList [.close (.symbol .closeBrace)] [.mark .closeBrace] :=
    ⟨rfl, by simp, .singleton _, rfl⟩
  exact hspelled.prints level

/-- Lines between a header and a closing brace. -/
theorem braced {header : String} {level : Nat}
    (hheader : Prints [⟨level, header ++ " \x7b"⟩] (leaves ++ [.mark .openBrace]))
    (hlines : Prints lines leaves') :
    Prints (Line.braced level header lines) (leaves ++ Grammar.braced leaves') := by
  have hall := hheader.append (hlines.append (close level))
  rwa [List.append_assoc] at hall

end Prints

end Lucha
