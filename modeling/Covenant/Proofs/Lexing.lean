import Covenant.Proofs.Translation
import Mathlib.Data.List.Chain

/-!
# Tokens laid out in a text

A text that can be read as tokens is laid out: it consists of spellings with blanks before,
between and after them. Two names next to each other need a blank in between, and nothing else
does. Reading gives the tokens of the layout back, each with the bytes of its spelling, and it
fails where the longest part at the front of the text that is laid out comes to its end.
-/

namespace Covenant

/-! ## Layouts -/

def Token.IsIdent : Token → Prop
  | .ident _ => True
  | _ => False

/-- The spelling of a token and the blanks after it. -/
structure Layout.Piece where
  token : Token
  spelling : List Char
  blanks : List Char
  spelled : token.Spelled spelling
  blank : ∀ c ∈ blanks, Text.isBlank c = true

namespace Layout.Piece

def text (piece : Piece) : List Char :=
  piece.spelling ++ piece.blanks

/-- A piece may stand right before another: two names do not touch. -/
def MayStandBefore (piece next : Piece) : Prop :=
  piece.token.IsIdent → next.token.IsIdent → piece.blanks ≠ []

/-- The tokens of some pieces that start at byte `start`, and the end of the text after them. -/
def locate (start : Nat) : List Piece → List (Located Token)
  | [] => [⟨.eof, ⟨start, start⟩⟩]
  | piece :: pieces =>
    ⟨piece.token, ⟨start, start + Text.bytes piece.spelling⟩⟩ ::
      locate (start + Text.bytes piece.text) pieces

end Layout.Piece

/-- A text as blanks and pieces, where names next to each other are kept apart. -/
structure Layout where
  lead : List Char
  pieces : List Layout.Piece
  blank : ∀ c ∈ lead, Text.isBlank c = true
  apart : pieces.IsChain Layout.Piece.MayStandBefore

namespace Layout

def text (layout : Layout) : List Char :=
  layout.lead ++ layout.pieces.flatMap Piece.text

/-- The tokens of a layout that starts at byte `start`, each with the bytes of its spelling, and
the end of the text. -/
def located (layout : Layout) (start : Nat) : List (Located Token) :=
  Piece.locate (start + Text.bytes layout.lead) layout.pieces

/-- A layout takes up the longest part at the front of a text that can be laid out. -/
def IsLongest (layout : Layout) (text : List Char) : Prop :=
  layout.text <+: text ∧ ∀ other : Layout, other.text <+: text →
    other.text.length ≤ layout.text.length

end Layout

/-! ## Layouts are what can be read -/

theorem Token.Spelled.isIdent_of_head {t : Token} {c : Char} {cs : List Char}
    (h : t.Spelled (c :: cs)) (hc : Text.isNameChar c = true) : t.IsIdent := by
  cases h with
  | ident _ => trivial
  | _ => cases hc

theorem Token.Spelled.isNameChar_head {t : Token} {c : Char} {cs : List Char}
    (h : t.Spelled (c :: cs)) (ht : t.IsIdent) : Text.isNameChar c = true := by
  cases h with
  | ident hname => exact hname.2 c List.mem_cons_self
  | _ => exact ht.elim

/-- Only a name minds what follows it. -/
theorem Token.mayPrecede_iff {t : Token} {text : List Char} :
    t.MayPrecede text ↔ (t.IsIdent → ∀ c ∈ text.head?, Text.isNameChar c = false) := by
  cases t <;> simp [Token.MayPrecede, Token.IsIdent]

/-- Blanks before a text move its tokens. -/
theorem Renders.append_blanks {start : Nat} {blanks text : List Char}
    {tokens : List (Located Token)} (hblanks : ∀ c ∈ blanks, Text.isBlank c = true)
    (h : Renders (start + Text.bytes blanks) tokens text) :
    Renders start tokens (blanks ++ text) := by
  induction blanks generalizing start with
  | nil => exact h
  | cons c blanks ih =>
      rw [List.forall_mem_cons] at hblanks
      apply Renders.blank hblanks.1
      apply ih hblanks.2
      simpa [Nat.add_assoc] using h

namespace Layout

/-- What follows a piece may follow its token. -/
theorem Piece.mayPrecede {piece : Piece} {pieces : List Piece}
    (h : (piece :: pieces).IsChain MayStandBefore) :
    piece.token.MayPrecede (piece.blanks ++ pieces.flatMap Piece.text) := by
  rw [Token.mayPrecede_iff]
  intro hident c hc
  cases hblanks : piece.blanks with
  | cons d blanks =>
      -- a blank stands right after the name
      have hd := piece.blank d (by simp [hblanks])
      obtain rfl : d = c := by simpa [hblanks] using hc
      cases hname : Text.isNameChar d with
      | false => rfl
      | true => rw [Text.isBlank_eq_false_of_isNameChar hname] at hd; cases hd
  | nil =>
      -- the next piece stands right after the name, so it is no name
      cases pieces with
      | nil => simp [hblanks] at hc
      | cons next pieces =>
          have hapart := (List.isChain_cons_cons.1 h).1
          obtain ⟨d, ds, hspelling⟩ := List.exists_cons_of_ne_nil next.spelled.ne_nil
          obtain rfl : d = c := by simpa [hblanks, Piece.text, hspelling] using hc
          cases hname : Text.isNameChar d with
          | false => rfl
          | true =>
              have hnext := (hspelling ▸ next.spelled).isIdent_of_head hname
              exact absurd hblanks (hapart hident hnext)

theorem Piece.renders {pieces : List Piece} (h : pieces.IsChain MayStandBefore) (start : Nat) :
    Renders start (Piece.locate start pieces) (pieces.flatMap Piece.text) := by
  induction pieces generalizing start with
  | nil => exact .eof
  | cons piece pieces ih =>
      have hrest := ih h.tail (start + Text.bytes piece.text)
      rw [List.flatMap_cons, Piece.text, List.append_assoc, Piece.locate]
      apply Renders.token piece.spelled (Piece.mayPrecede h)
      apply Renders.append_blanks piece.blank
      simpa [Piece.text, Nat.add_assoc] using hrest

theorem renders (layout : Layout) (start : Nat) :
    Renders start (layout.located start) layout.text :=
  .append_blanks layout.blank (Piece.renders layout.apart _)

end Layout

/-- A text that spells tokens is laid out. -/
theorem Renders.exists_layout {start : Nat} {text : List Char} {tokens : List (Located Token)}
    (h : Renders start tokens text) : ∃ layout :
    Layout, layout.text = text ∧ layout.located start = tokens := by
  induction h with
  | eof => exact ⟨⟨[], [], by simp, .nil⟩, rfl, rfl⟩
  | @blank start c _ _ hc _ ih =>
      obtain ⟨layout, rfl, rfl⟩ := ih
      refine ⟨⟨c :: layout.lead, layout.pieces, ?_, layout.apart⟩, rfl, ?_⟩
      · exact List.forall_mem_cons.2 ⟨hc, layout.blank⟩
      · simp [Layout.located, Nat.add_assoc]
  | @token start t spelling _ _ ht hend _ ih =>
      obtain ⟨layout, rfl, rfl⟩ := ih
      -- the blanks that lead the rest of the text come after the new piece
      let piece : Layout.Piece := ⟨t, spelling, layout.lead, ht, layout.blank⟩
      have hnext : ∀ next ∈ layout.pieces.head?, piece.MayStandBefore next := by
        intro next hnext hident hident' hlead
        obtain ⟨pieces, hpieces⟩ := List.head?_eq_some_iff.1 hnext
        obtain ⟨c, cs, hspelling⟩ := List.exists_cons_of_ne_nil next.spelled.ne_nil
        have hname := (hspelling ▸ next.spelled).isNameChar_head hident'
        have hhead : c ∈ layout.text.head? := by
          simp [Layout.text, show layout.lead = [] from hlead, hpieces,
            Layout.Piece.text, hspelling]
        rw [Token.mayPrecede_iff.1 hend hident c hhead] at hname
        cases hname
      refine ⟨⟨[], piece :: layout.pieces, by simp, ?_⟩, ?_, ?_⟩
      · exact List.isChain_cons.2 ⟨hnext, layout.apart⟩
      · simp [Layout.text, Layout.Piece.text, piece]
      · simp [Layout.located, Layout.Piece.locate, Layout.Piece.text, piece, Nat.add_assoc]

/-! ## Where reading fails -/

/-- What may follow a token may be cut short. -/
theorem Token.MayPrecede.of_append {t : Token} {part more : List Char}
    (h : t.MayPrecede (part ++ more)) :
    t.MayPrecede part := by
  rw [Token.mayPrecede_iff] at h ⊢
  intro hident c hc
  apply h hident
  simp [List.head?_append, Option.mem_def.1 hc]

/-- It may go on, unless it has not started. -/
theorem Token.MayPrecede.append {t : Token} {part : List Char} (h : t.MayPrecede part)
    (hne : part ≠ []) (more : List Char) : t.MayPrecede (part ++ more) := by
  obtain ⟨c, cs, rfl⟩ := List.exists_cons_of_ne_nil hne
  rw [Token.mayPrecede_iff] at h ⊢
  exact h

/-- A token at the front of a part of a text is read from the whole text too, or the part is the
beginning of a longer name. -/
theorem Lexeme.read_of_spelled_append {t : Token} {c : Char} {cs part : List Char}
    (h : t.Spelled (c :: cs)) (hend : t.MayPrecede part) (more : List Char) :
    read c (cs ++ (part ++ more)) = ⟨.ok t, c :: cs, part ++ more⟩ ∨
      part = [] ∧ (∃ longer, (read c (cs ++ more)).outcome = .ok longer) ∧
        cs.length < (read c (cs ++ more)).text.length := by
  by_cases hmore : t.MayPrecede (part ++ more)
  · exact .inl (read_of_spelled h hmore)
  · have hpart : part = [] := by
      by_contra hne
      exact hmore (hend.append hne more)
    have hident : t.IsIdent := by
      rw [Token.mayPrecede_iff, Classical.not_imp] at hmore
      exact hmore.1
    cases h with
    | ident hname =>
        have hc := hname.2 c List.mem_cons_self
        have htake : (cs ++ more).takeWhile Text.isNameChar =
            cs ++ more.takeWhile Text.isNameChar :=
          List.takeWhile_append_of_pos fun d hd => hname.2 d (List.mem_cons_of_mem c hd)
        let longer := c :: (cs ++ more.takeWhile Text.isNameChar)
        have hread : read c (cs ++ more) =
            ⟨.ok (.ident (String.ofList longer)), longer,
              (cs ++ more).dropWhile Text.isNameChar⟩ := by
          simp only [read, hc, if_true, htake, longer]
        rw [hread]
        refine .inr ⟨hpart, ⟨_, rfl⟩, ?_⟩
        simp only [longer, List.length_cons, List.length_append]
        omega
    | _ => exact hident.elim

/-- A text that spells tokens starts with a blank or with a token. -/
theorem Spells.blank_or_token {tokens : List Token} {c : Char} {text : List Char}
    (h : Spells tokens (c :: text)) :
    (Text.isBlank c = true ∧ Spells tokens text) ∨
      ∃ (t : Token) (others : List Token) (cs rest : List Char),
        text = cs ++ rest ∧ t.Spelled (c :: cs) ∧ t.MayPrecede rest ∧ Spells others rest := by
  generalize htext : c :: text = whole at h
  cases h with
  | nil => cases htext
  | blank hc h =>
      obtain ⟨rfl, rfl⟩ := List.cons.inj htext
      exact .inl ⟨hc, h⟩
  | @token t others spelling rest ht hend h =>
      obtain ⟨d, ds, rfl⟩ := List.exists_cons_of_ne_nil ht.ne_nil
      obtain ⟨rfl, rfl⟩ := List.cons.inj htext
      exact .inr ⟨t, others, ds, rest, rfl, ht, hend, h⟩

/-- At the front of a text that does not start with a blank, only tokens can be spelled. -/
theorem Spells.token_of_front {tokens : List Token} {c : Char} {cs part : List Char}
    (h : Spells tokens part) (hfront : part <+: c :: cs) (hc : Text.isBlank c = false) :
    part = [] ∨ ∃ (t : Token) (others : List Token) (ds rest more : List Char),
      part = c :: (ds ++ rest) ∧ cs = ds ++ (rest ++ more) ∧
        t.Spelled (c :: ds) ∧ t.MayPrecede rest ∧ Spells others rest := by
  cases part with
  | nil => exact .inl rfl
  | cons d part =>
      obtain ⟨rfl, more, rfl⟩ := List.cons_prefix_cons.1 hfront
      rcases h.blank_or_token with ⟨hblank, _⟩ | ⟨t, others, ds, rest, rfl, ht, hend, hrest⟩
      · rw [hc] at hblank
        cases hblank
      · exact .inr ⟨t, others, ds, rest, more, rfl, by simp, ht, hend, hrest⟩

/-- The longest part at the front of a text that spells tokens. -/
structure LongestSpelled (part text : List Char) : Prop where
  front : part <+: text
  spells : ∃ tokens, Spells tokens part
  longest : ∀ other tokens, other <+: text → Spells tokens other → other.length ≤ part.length

namespace LongestSpelled

/-- Blanks belong to it. -/
theorem cons_blank {c : Char} {part text : List Char} (hc : Text.isBlank c = true)
    (h : LongestSpelled part text) : LongestSpelled (c :: part) (c :: text) where
  front := List.cons_prefix_cons.2 ⟨rfl, h.front⟩
  spells := h.spells.imp fun _ => .blank hc
  longest := by
    intro other tokens hother hspells
    cases other with
    | nil => simp
    | cons d ds =>
        obtain ⟨rfl, hds⟩ := List.cons_prefix_cons.1 hother
        rcases hspells.blank_or_token with ⟨_, hspells⟩ | ⟨t, _, _, _, _, ht, _⟩
        · simpa using h.longest ds tokens hds hspells
        · rw [ht.head_not_blank] at hc
          cases hc

/-- Lexemes that make a token belong to it. -/
theorem append_lexeme {c : Char} {cs part : List Char} {t : Token} (hc : Text.isBlank c = false)
    (ht : (Lexeme.read c cs).outcome = .ok t) (h : LongestSpelled part (Lexeme.read c cs).rest) :
    LongestSpelled ((Lexeme.read c cs).text ++ part) (c :: cs) := by
  obtain ⟨hspelled, hend⟩ := Lexeme.spelled_of_read ht
  obtain ⟨after, hafter⟩ := h.front
  obtain ⟨tokens, hspells⟩ := h.spells
  refine ⟨?_, ⟨t :: tokens, .token hspelled ?_ hspells⟩, ?_⟩
  · exact ⟨after, by rw [List.append_assoc, hafter, Lexeme.text_append_rest]⟩
  · rw [← hafter] at hend
    exact hend.of_append
  · intro other tokens hother hspells
    rcases hspells.token_of_front hother hc with rfl |
      ⟨t', others, ds, rest, more, rfl, rfl, ht', hend', hrest⟩
    · simp
    · rcases Lexeme.read_of_spelled_append ht' hend' more with hread | ⟨rfl, _, hlength⟩
      · -- the same token comes first, so the rests are compared
        rw [hread] at h ⊢
        have hle := h.longest rest others ⟨more, rfl⟩ hrest
        simp only [List.length_cons, List.length_append]
        omega
      · -- the other part ends inside the name
        simp only [List.nil_append, List.append_nil, List.length_cons, List.length_append]
        omega

/-- Where no token starts, it ends. -/
theorem nil_of_fault {c : Char} {cs : List Char} {fault : TokenFault} (hc : Text.isBlank c = false)
    (hfault : (Lexeme.read c cs).outcome = .error fault) : LongestSpelled [] (c :: cs) where
  front := List.nil_prefix
  spells := ⟨[], .nil⟩
  longest := by
    intro other tokens hother hspells
    rcases hspells.token_of_front hother hc with rfl |
      ⟨t, others, ds, rest, more, rfl, rfl, ht, hend, hrest⟩
    · simp
    · rcases Lexeme.read_of_spelled_append ht hend more with hread | ⟨rfl, ⟨longer, hread⟩, _⟩
      · rw [hread] at hfault
        cases hfault
      · rw [List.nil_append, hread] at hfault
        cases hfault

/-- It is laid out, and no layout takes up more. -/
theorem exists_isLongest {part text : List Char} (h : LongestSpelled part text) :
    ∃ layout : Layout, layout.text = part ∧ layout.IsLongest text := by
  obtain ⟨tokens, hspells⟩ := h.spells
  obtain ⟨located, hrenders, _⟩ := hspells.renders 0
  obtain ⟨layout, rfl, _⟩ := hrenders.exists_layout
  refine ⟨layout, rfl, h.front, ?_⟩
  intro other hother
  obtain ⟨others, _, hothers⟩ := (other.renders 0).spells
  exact h.longest other.text others hother hothers

end LongestSpelled

/-- Reading fails where the longest part that spells tokens comes to its end. -/
theorem exists_longest_of_tokenizeFrom {start : Nat} {text : List Char} {e : TokenError}
    (h : tokenizeFrom start text = .error e) :
    ∃ part, LongestSpelled part text ∧ e.span.start = start + Text.bytes part := by
  induction text using lexing_induction generalizing start with
  | nil => simp [tokenizeFrom_nil] at h
  | blank c cs hc ih =>
      rw [tokenizeFrom_blank hc] at h
      obtain ⟨part, hpart, hstart⟩ := ih h
      exact ⟨c :: part, hpart.cons_blank hc, by simpa [Nat.add_assoc] using hstart⟩
  | fault c cs e hc hread =>
      rw [tokenizeFrom_fault hc hread] at h
      obtain rfl := Except.error.inj h
      exact ⟨[], .nil_of_fault hc hread, rfl⟩
  | token c cs t hc hread ih =>
      rw [tokenizeFrom_lexeme hc hread] at h
      rcases bind_eq_error_iff.1 h with h | ⟨tokens, _, h⟩
      · obtain ⟨part, hpart, hstart⟩ := ih h
        exact ⟨_, hpart.append_lexeme hc hread, by simpa [Nat.add_assoc] using hstart⟩
      · cases h

/-! ## Reading and laying out -/

/-- Reading tokens is the inverse of laying them out. A text can be read exactly if it is laid
out, and then its tokens are read, each with the bytes of its spelling. Otherwise the fault starts
where the longest part at the front of the text that is laid out ends. A text that starts further
on has the same tokens, or the same fault, that much further on. -/
theorem tokenize_inverts_layout (start : Nat) (text : String) :
    (∀ tokens, tokenize start text = .ok tokens ↔
        ∃ layout : Layout, layout.text = text.toList ∧ layout.located start = tokens) ∧
      (∀ e, tokenize start text = .error e →
        ∃ layout : Layout, layout.IsLongest text.toList ∧
          e.span.start = start + Text.bytes layout.text) ∧
      ∀ n, tokenize (n + start) text =
        moved n (List.map (Located.shift n)) (tokenize start text) := by
  refine ⟨fun tokens => ⟨fun h => ?_, fun h => ?_⟩, fun e h => ?_, fun n => ?_⟩
  · exact (renders_of_tokenizeFrom h).exists_layout
  · obtain ⟨layout, htext, rfl⟩ := h
    rw [tokenize, ← htext]
    exact tokenizeFrom_of_renders (layout.renders start)
  · obtain ⟨part, hpart, hstart⟩ := exists_longest_of_tokenizeFrom h
    obtain ⟨layout, rfl, hlongest⟩ := hpart.exists_isLongest
    exact ⟨layout, hlongest, hstart⟩
  · exact tokenizeFrom_shift n start text.toList

/-- A name, a wide blank, an array, and half of an arrow. -/
theorem tokenize_inverts_layout_sample :
    let text := "ab\u3000[c] -d"
    tokenize 4 text = .error ⟨.malformedArrow, ⟨13, 14⟩⟩ ∧
      ∃ layout : Layout, layout.IsLongest text.toList ∧ Text.bytes layout.text = 9 := by
  intro text
  have h : tokenize 4 text = .error ⟨.malformedArrow, ⟨13, 14⟩⟩ := by decide +kernel
  obtain ⟨layout, hlongest, hstart⟩ := (tokenize_inverts_layout 4 text).2.1 _ h
  refine ⟨h, layout, hlongest, ?_⟩
  have hstart : 13 = 4 + Text.bytes layout.text := hstart
  omega

end Covenant
