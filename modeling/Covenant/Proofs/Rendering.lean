import Covenant.Proofs.Outcome
import Covenant.Proofs.Searching
import Covenant.Token.Lexer

/-!
# Tokens and the texts that spell them

A text spells tokens if it consists of their spellings, in order and with blanks between them.
Names are as long as they can be, so two names never touch. Reading tokens is the inverse of
spelling them: a text is read as some tokens exactly if it spells them, each token at the bytes
where it is spelled.
-/

namespace Covenant

/-! ## Spellings -/

/-- The characters that spell a token. The end of a text has none. -/
inductive Token.Spelled : Token → List Char → Prop
  | ident {name : List Char} (hname : Text.IsName name) : Spelled (.ident (String.ofList name)) name
  | openBracket : Spelled .openBracket ['[']
  | closeBracket : Spelled .closeBracket [']']
  | arrow : Spelled .arrow ['-', '>']
  | unit {blanks : List Char} (hblanks : ∀ c ∈ blanks, Text.isBlank c = true) :
      Spelled .unit ('(' :: (blanks ++ [')']))

/-- A text may follow a token: after a name it does not go on with the name. -/
def Token.MayPrecede : Token → List Char → Prop
  | .ident _, text => ∀ c ∈ text.head?, Text.isNameChar c = false
  | _, _ => True

/-- A text that starts at byte `start` spells some tokens at their places. Between the tokens
there may be blanks, and the last token is the end of the text. -/
inductive Renders : Nat → List (Located Token) → List Char → Prop
  | eof {start : Nat} : Renders start [⟨.eof, ⟨start, start⟩⟩] []
  | blank {start : Nat} {c : Char} {text : List Char} {tokens : List (Located Token)}
      (hc : Text.isBlank c = true) (h : Renders (start + c.utf8Size) tokens text) :
      Renders start tokens (c :: text)
  | token {start : Nat} {t : Token} {spelling text : List Char} {tokens : List (Located Token)}
      (ht : t.Spelled spelling) (hend : t.MayPrecede text)
      (h : Renders (start + Text.bytes spelling) tokens text) :
      Renders start (⟨t, ⟨start, start + Text.bytes spelling⟩⟩ :: tokens) (spelling ++ text)

/-! ## One token -/

theorem Token.Spelled.ne_nil {t : Token} {spelling : List Char} (h : t.Spelled spelling) :
    spelling ≠ [] := by
  cases h with
  | ident hname => exact hname.1
  | _ => simp

theorem Token.Spelled.head_not_blank {t : Token} {c : Char} {cs : List Char}
    (h : t.Spelled (c :: cs)) :
    Text.isBlank c = false := by
  cases h with
  | ident hname => exact Text.isBlank_eq_false_of_isNameChar (hname.2 c List.mem_cons_self)
  | _ => rfl

namespace Lexeme

/-- A lexeme that makes a token spells it, and what follows may follow it. -/
theorem spelled_of_read {c : Char} {cs : List Char} {t : Token} (h : (read c cs).outcome = .ok t) :
    t.Spelled (read c cs).text ∧ t.MayPrecede (read c cs).rest := by
  revert h
  fun_cases read c cs with
  | case1 =>
      rintro ⟨⟩
      refine ⟨.ident ⟨by simp, ?_⟩, ?_⟩
      · intro d hd
        rcases List.mem_cons.1 hd with rfl | hd
        · assumption
        · exact List.all_eq_true.1 List.all_takeWhile d hd
      · intro d hd
        have hstop := List.head?_dropWhile_not Text.isNameChar cs
        rw [Option.mem_def.1 hd] at hstop
        exact hstop
  | case2 =>
      rintro ⟨⟩
      exact ⟨.openBracket, trivial⟩
  | case3 =>
      rintro ⟨⟩
      exact ⟨.closeBracket, trivial⟩
  | case4 =>
      rintro ⟨⟩
      exact ⟨.arrow, trivial⟩
  | case7 =>
      rintro ⟨⟩
      refine ⟨.unit ?_, trivial⟩
      exact fun d hd => List.all_eq_true.1 List.all_takeWhile d hd
  | case5 | case6 | case8 | case9 | case10 => rintro ⟨⟩

/-- A spelling that is followed by something else makes its token. -/
theorem read_of_spelled {t : Token} {c : Char} {cs rest : List Char} (h : t.Spelled (c :: cs))
    (hrest : t.MayPrecede rest) : read c (cs ++ rest) = ⟨.ok t, c :: cs, rest⟩ := by
  cases h with
  | ident hname =>
      have hc := hname.2 c List.mem_cons_self
      obtain ⟨htake, hdrop⟩ := takeWhile_append_of_head rest
        (fun d hd => hname.2 d (List.mem_cons_of_mem c hd)) hrest
      simp [read, hc, htake, hdrop]
  | openBracket => rfl
  | closeBracket => rfl
  | arrow => rfl
  | @unit blanks hblanks =>
      obtain ⟨htake, hdrop⟩ := takeWhile_append_of_head (')' :: rest) hblanks
        (by rintro d ⟨⟩; rfl)
      have hcs : blanks ++ [')'] ++ rest = blanks ++ ')' :: rest := by simp
      have hparen : Text.isNameChar '(' = false := rfl
      simp [hcs, read, hparen, htake, hdrop]

end Lexeme

/-! ## All tokens -/

theorem tokenizeFrom_nil (start : Nat) : tokenizeFrom start [] = .ok [⟨.eof, ⟨start, start⟩⟩] := by
  rw [tokenizeFrom.eq_def]

theorem tokenizeFrom_blank {start : Nat} {c : Char} {cs : List Char} (h : Text.isBlank c = true) :
    tokenizeFrom start (c :: cs) = tokenizeFrom (start + c.utf8Size) cs := by
  rw [tokenizeFrom.eq_def]
  exact if_pos h

theorem tokenizeFrom_lexeme {start : Nat} {c : Char} {cs : List Char} (h : Text.isBlank c = false)
    {t : Token} (ht : (Lexeme.read c cs).outcome = .ok t) :
    tokenizeFrom start (c :: cs) = do
      let tokens ← tokenizeFrom (start + Text.bytes (Lexeme.read c cs).text) (Lexeme.read c cs).rest
      return ⟨t, ⟨start, start + Text.bytes (Lexeme.read c cs).text⟩⟩ :: tokens := by
  rw [tokenizeFrom.eq_def]
  simp only [h, ht, Bool.false_eq_true, if_false]

theorem tokenizeFrom_fault {start : Nat} {c : Char} {cs : List Char} (h : Text.isBlank c = false)
    {fault : TokenFault} (hfault : (Lexeme.read c cs).outcome = .error fault) :
    tokenizeFrom start (c :: cs) =
      .error ⟨fault, ⟨start, start + Text.bytes (Lexeme.read c cs).text⟩⟩ := by
  rw [tokenizeFrom.eq_def]
  simp only [h, hfault, Bool.false_eq_true, if_false]

/-- Induction along the reading of a text: it has come to its end, or there is a blank, a lexeme
that makes no token, or a token with the rest of the text after it. -/
@[elab_as_elim]
theorem lexing_induction {motive : List Char → Prop} (nil : motive [])
    (blank : ∀ c cs, Text.isBlank c = true → motive cs → motive (c :: cs))
    (fault : ∀ c cs e, Text.isBlank c = false → (Lexeme.read c cs).outcome = .error e →
      motive (c :: cs))
    (token : ∀ c cs t, Text.isBlank c = false → (Lexeme.read c cs).outcome = .ok t →
      motive (Lexeme.read c cs).rest → motive (c :: cs))
    (text : List Char) : motive text := by
  -- what follows a lexeme is shorter than the text
  induction hn : text.length using Nat.strongRecOn generalizing text with
  | ind n ih =>
      subst hn
      cases text with
      | nil => exact nil
      | cons c cs =>
          cases hc : Text.isBlank c with
          | true => exact blank c cs hc (ih cs.length (by simp) cs rfl)
          | false =>
              cases hread : (Lexeme.read c cs).outcome with
              | error e => exact fault c cs e hc hread
              | ok t =>
                  exact token c cs t hc hread
                    (ih _ (Nat.lt_succ_of_le (Lexeme.length_rest_le c cs)) _ rfl)

theorem tokenizeFrom_of_renders {start : Nat} {text : List Char} {tokens : List (Located Token)}
    (h : Renders start tokens text) : tokenizeFrom start text = .ok tokens := by
  induction h with
  | eof => exact tokenizeFrom_nil _
  | blank hc _ ih => rw [tokenizeFrom_blank hc, ih]
  | @token start t spelling text tokens ht hend _ ih =>
      cases spelling with
      | nil => exact absurd rfl ht.ne_nil
      | cons c cs =>
          have hread := Lexeme.read_of_spelled ht hend
          rw [List.cons_append, tokenizeFrom_lexeme ht.head_not_blank (by rw [hread]), hread, ih]
          rfl

theorem renders_of_tokenizeFrom {start : Nat} {text : List Char} {tokens : List (Located Token)}
    (h : tokenizeFrom start text = .ok tokens) : Renders start tokens text := by
  induction text using lexing_induction generalizing start tokens with
  | nil =>
      rw [tokenizeFrom_nil] at h
      obtain rfl := Except.ok.inj h
      exact .eof
  | blank c cs hc ih =>
      rw [tokenizeFrom_blank hc] at h
      exact .blank hc (ih h)
  | fault c cs e hc hread => simp [tokenizeFrom_fault hc hread] at h
  | token c cs t hc hread ih =>
      rw [tokenizeFrom_lexeme hc hread, bind_eq_ok_iff] at h
      obtain ⟨rest, hrest, h⟩ := h
      obtain rfl := Except.ok.inj h
      obtain ⟨hspelled, hend⟩ := Lexeme.spelled_of_read hread
      rw [← Lexeme.text_append_rest c cs]
      exact .token hspelled hend (ih hrest)

theorem tokenizeFrom_eq_ok_iff {start : Nat} {text : List Char} {tokens : List (Located Token)} :
    tokenizeFrom start text = .ok tokens ↔ Renders start tokens text :=
  ⟨renders_of_tokenizeFrom, tokenizeFrom_of_renders⟩

/-- The end of the text is the last token, and only the last. -/
theorem Renders.eq_concat {start : Nat} {text : List Char} {tokens : List (Located Token)}
    (h : Renders start tokens text) :
    ∃ body, tokens = body ++ [⟨.eof, ⟨start + Text.bytes text, start + Text.bytes text⟩⟩] ∧
      ∀ t ∈ body, t.item ≠ .eof := by
  induction h with
  | eof => exact ⟨[], by simp, by simp⟩
  | blank hc _ ih =>
      obtain ⟨body, rfl, hbody⟩ := ih
      exact ⟨body, by simp [Nat.add_assoc], hbody⟩
  | @token start t spelling _ _ ht _ _ ih =>
      obtain ⟨body, rfl, hbody⟩ := ih
      refine ⟨⟨t, start, start + Text.bytes spelling⟩ :: body, by simp [Nat.add_assoc], ?_⟩
      rw [List.forall_mem_cons]
      refine ⟨?_, hbody⟩
      rintro rfl
      cases ht

/-! ## Tokens without places -/

/-- A text spells some tokens, wherever it starts. The end of the text is not counted. -/
inductive Spells : List Token → List Char → Prop
  | nil : Spells [] []
  | blank {c : Char} {tokens : List Token} {text : List Char} (hc : Text.isBlank c = true)
      (h : Spells tokens text) : Spells tokens (c :: text)
  | token {t : Token} {tokens : List Token} {spelling text : List Char} (ht : t.Spelled spelling)
      (hend : t.MayPrecede text) (h : Spells tokens text) : Spells (t :: tokens) (spelling ++ text)

/-- The tokens of a text are spelled by it, without their places. -/
theorem Renders.spells {start : Nat} {text : List Char} {located : List (Located Token)}
    (h : Renders start located text) :
    ∃ tokens, located.map (·.item) = tokens ++ [.eof] ∧ Spells tokens text := by
  induction h with
  | eof => exact ⟨[], rfl, .nil⟩
  | blank hc _ ih =>
      obtain ⟨tokens, htokens, hspells⟩ := ih
      exact ⟨tokens, htokens, .blank hc hspells⟩
  | @token _ t _ _ _ ht hend _ ih =>
      obtain ⟨tokens, htokens, hspells⟩ := ih
      exact ⟨t :: tokens, by simp [htokens], .token ht hend hspells⟩

/-- A text that spells tokens does so from every byte on. -/
theorem Spells.renders {tokens : List Token} {text : List Char} (h : Spells tokens text)
    (start : Nat) :
    ∃ located, Renders start located text ∧ located.map (·.item) = tokens ++ [.eof] := by
  induction h generalizing start with
  | nil => exact ⟨_, .eof, rfl⟩
  | @blank c _ _ hc _ ih =>
      obtain ⟨located, hrenders, hitems⟩ := ih (start + c.utf8Size)
      exact ⟨located, .blank hc hrenders, hitems⟩
  | @token _ _ spelling _ ht hend _ ih =>
      obtain ⟨located, hrenders, hitems⟩ := ih (start + Text.bytes spelling)
      exact ⟨_ :: located, .token ht hend hrenders, by simp [hitems]⟩

end Covenant
