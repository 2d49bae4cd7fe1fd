import LoxLang.Proofs.Printing.Bare
import LoxLang.Proofs.Token.Genuine

/-!
Texts that write tokens wherever they stand.

`Prints follow text P` says that the text, from any line on, spells some tokens with the property
`P`, whatever comes behind it, provided that it begins with a character that `follow` allows.  The
tokens depend on the line, so `P` must not; it says what they are but for their lines.  Texts are
put together by `Prints.append`.
-/

namespace LoxLang

def Writes (follow : Char → Bool) (line : Nat) (text : String) (ts : List Token) : Prop :=
  ∀ cs us, (∀ c ∈ cs.head?, follow c = true) →
    Spells (line + Text.newlines text.toList) cs us → Spells line (text.toList ++ cs) (ts ++ us)

def Prints (follow : Char → Bool) (text : String) (P : List Token → Prop) : Prop :=
  ∀ line, ∃ ts, P ts ∧ Writes follow line text ts

/-- Anything may follow. -/
def free (_ : Char) : Bool := true

/-- What may follow an expression. -/
def clear (c : Char) : Bool := !inWord c && c != '.'

/-- The text begins with a character that `follow` allows. -/
def Opens (follow : Char → Bool) (text : String) : Prop :=
  ∃ c cs, text.toList = c :: cs ∧ follow c = true

variable {follow follow' : Char → Bool} {s s' : String} {P Q : List Token → Prop}

/-- With nothing behind it, the text spells its tokens. -/
theorem Writes.spells {line : Nat} {ts : List Token} (h : Writes follow line s ts) :
    Spells line s.toList ts := by
  have hspells := h [] [] (fun _ hc => nomatch hc) (.nil _)
  rwa [List.append_nil, List.append_nil] at hspells

namespace Prints

theorem mono (h : Prints follow s P) (hpq : ∀ ts, P ts → Q ts) : Prints follow s Q := by
  intro line
  obtain ⟨ts, hp, hw⟩ := h line
  exact ⟨ts, hpq ts hp, hw⟩

theorem weaken (h : Prints follow s P) (hf : ∀ c, follow' c = true → follow c = true) :
    Prints follow' s P := by
  intro line
  obtain ⟨ts, hp, hw⟩ := h line
  exact ⟨ts, hp, fun cs us hc hs => hw cs us (fun c hmem => hf c (hc c hmem)) hs⟩

/-- A text before another one writes what both write, if the second one lets it. -/
theorem before (h : Prints follow s P) (h' : Prints follow' s' Q)
    (hf : ∀ cs : List Char, (∀ c ∈ cs.head?, follow' c = true) →
      ∀ c ∈ (s'.toList ++ cs).head?, follow c = true) :
    Prints follow' (s ++ s') fun ts => ∃ us vs, ts = us ++ vs ∧ P us ∧ Q vs := by
  intro line
  obtain ⟨us, hp, hu⟩ := h line
  obtain ⟨vs, hq, hv⟩ := h' (line + Text.newlines s.toList)
  refine ⟨us ++ vs, ⟨us, vs, rfl, hp, hq⟩, ?_⟩
  intro cs ws hc hs
  rw [String.toList_append, Text.newlines_append, ← Nat.add_assoc] at hs
  rw [String.toList_append, List.append_assoc, List.append_assoc]
  exact hu _ _ (hf cs hc) (hv cs ws hc hs)

theorem append (h : Prints follow s P) (h' : Prints follow' s' Q) (ho : Opens follow s') :
    Prints follow' (s ++ s') fun ts => ∃ us vs, ts = us ++ vs ∧ P us ∧ Q vs := by
  obtain ⟨c, w, hw, hc⟩ := ho
  refine h.before h' fun cs _ d hd => ?_
  rw [hw, List.cons_append, List.head?_cons, Option.mem_some_iff] at hd
  exact hd ▸ hc

theorem appendFree (h : Prints free s P) (h' : Prints follow' s' Q) :
    Prints follow' (s ++ s') fun ts => ∃ us vs, ts = us ++ vs ∧ P us ∧ Q vs :=
  h.before h' fun _ _ _ _ => rfl

end Prints

/-! ## Blanks -/

theorem spells_blanks {as cs : List Char} {us : List Token} {line : Nat}
    (h : ∀ c ∈ as, Text.isBlank c = true) (hs : Spells (line + Text.newlines as) cs us) :
    Spells line (as ++ cs) us := by
  induction as generalizing line with
  | nil => exact hs
  | cons a as ih =>
    have hsplit : Text.newlines (a :: as) = Text.newlines [a] + Text.newlines as :=
      Text.newlines_append [a] as
    rw [hsplit, ← Nat.add_assoc] at hs
    exact .blank (h a List.mem_cons_self) (ih (fun c hc => h c (List.mem_cons_of_mem a hc)) hs)

theorem prints_blanks (h : s.toList.all Text.isBlank = true) : Prints free s (· = []) := by
  intro line
  refine ⟨[], rfl, ?_⟩
  intro cs us _ hs
  exact spells_blanks (List.all_eq_true.1 h) hs

theorem prints_indentation (depth : Nat) : Prints free (indentation depth) (· = []) := by
  apply prints_blanks
  rw [List.all_eq_true]
  intro c hc
  rw [indentation, String.toList_ofList] at hc
  rw [List.eq_of_mem_replicate hc]
  decide

/-- A blank behind a text. -/
theorem Prints.spaced (h : Prints follow s P) (hf : follow ' ' = true) :
    Prints free (s ++ " ") P := by
  have hblank : Prints free " " (· = []) := prints_blanks rfl
  refine (h.append hblank ⟨_, _, rfl, hf⟩).mono ?_
  rintro _ ⟨us, _, rfl, hu, rfl⟩
  rwa [List.append_nil]

/-- Blanks before a text. -/
theorem Prints.afterBlanks {b : String} (h : Prints follow s P)
    (hb : b.toList.all Text.isBlank = true) : Prints follow (b ++ s) P := by
  refine ((prints_blanks hb).appendFree h).mono ?_
  rintro _ ⟨_, vs, rfl, rfl, hv⟩
  exact hv

/-! ## Tokens -/

/-- A text that is a genuine token is this token again, on another line. -/
theorem prints_token {t : Token} (h : t.Genuine) :
    Prints (fun c => !t.kind.extendedBy c) t.lexeme
      fun ts => ∃ u, ts = [u] ∧ u.unlined = t.unlined ∧ u.Genuine := by
  intro line
  let u : Token := { t with line := line + Text.newlines t.lexeme.toList }
  have hu : u.Genuine := h.onLine _
  refine ⟨[u], ⟨u, rfl, rfl, hu⟩, ?_⟩
  intro cs us hc hs
  refine .token rfl (hu.stands fun c hmem => ?_) rfl hs
  simpa using hc c hmem

/-- The token of a keyword or a mark, without its line. -/
def Kind.fixed (k : Kind) : Token := ⟨k, k.text?.getD "", none, 0⟩

/-- Tokens of the given kinds, each a keyword or a mark. -/
def Fixed (ks : List Kind) (ts : List Token) : Prop := ts.map Token.unlined = ks.map Kind.fixed

theorem Fixed.one {k : Kind} {ts : List Token} (h : Fixed [k] ts) :
    ∃ t, ts = [t] ∧ t.unlined = k.fixed := by
  obtain ⟨t, rest, rfl, ht, hrest⟩ := List.map_eq_cons_iff.1 h
  rw [List.map_eq_nil_iff.1 hrest]
  exact ⟨t, rfl, ht⟩

theorem Fixed.two {k l : Kind} {ts : List Token} (h : Fixed [k, l] ts) :
    ∃ t u, ts = [t, u] ∧ t.unlined = k.fixed ∧ u.unlined = l.fixed := by
  obtain ⟨t, rest, rfl, ht, hrest⟩ := List.map_eq_cons_iff.1 h
  obtain ⟨u, rfl, hu⟩ := Fixed.one hrest
  exact ⟨t, u, rfl, ht, hu⟩

theorem kind_of_unlined {t u : Token} (h : t.unlined = u.unlined) : t.kind = u.kind := by
  show t.unlined.kind = u.unlined.kind
  rw [h]

theorem literal_of_unlined {t u : Token} (h : t.unlined = u.unlined) : t.literal = u.literal := by
  show t.unlined.literal = u.unlined.literal
  rw [h]

theorem kind_of_fixed {t : Token} {k : Kind} (h : t.unlined = k.fixed) : t.kind = k := by
  show t.unlined.kind = k
  rw [h]
  rfl

/-- Genuine tokens of one fixed kind differ in their lines only. -/
theorem unlined_eq_fixed {t : Token} {k : Kind} (h : t.Genuine) (hk : t.kind = k)
    (hs : k.text?.isSome) : t.unlined = k.fixed := by
  obtain ⟨text, ht⟩ := Option.isSome_iff_exists.1 hs
  have he : t = ⟨t.kind, text, none, t.line⟩ := h.eq_fixed (hk ▸ ht)
  rw [he, Token.unlined, Kind.fixed, ht, hk]
  rfl

theorem prints_fixed (k : Kind) (hs : k.text? = some s) :
    Prints (fun c => !k.extendedBy c) s (Fixed [k]) := by
  refine (prints_token (Token.genuine_fixed hs 0)).mono ?_
  rintro _ ⟨u, rfl, hu, -⟩
  have hfixed : (⟨k, s, none, 0⟩ : Token) = k.fixed := by rw [Kind.fixed, hs]; rfl
  show [u.unlined] = [k.fixed]
  rw [hu, ← hfixed]
  rfl

/-- Two texts with fixed tokens, one right behind the other. -/
theorem Prints.fixed {ks ls : List Kind} (h : Prints follow s (Fixed ks))
    (h' : Prints follow' s' (Fixed ls)) (ho : Opens follow s') :
    Prints follow' (s ++ s') (Fixed (ks ++ ls)) := by
  refine (h.append h' ho).mono ?_
  rintro _ ⟨us, vs, rfl, hu, hv⟩
  show (us ++ vs).map Token.unlined = (ks ++ ls).map Kind.fixed
  rw [List.map_append, List.map_append, hu, hv]

end LoxLang
