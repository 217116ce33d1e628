import LoxLang.Proofs.Lexemes

/-!
# Words and lists

A form is a word or a list in parentheses, with single spaces between the parts of a list. Its text
is read in one way only, if the words have no spaces or parentheses.

* `Form`: a word, or a list in parentheses;
* `Form.Legible`: a form whose words can be told apart;
* `Form.ReadsBack`, `Form.Legible.readsBack`: a form, with whatever stands behind it, is found again
  in its text, by induction on the form.
-/

namespace LoxLang

inductive Form
  | word (text : String)
  | list (items : List Form)

namespace Form

mutual

def write : Form → List Char
  | word text => text.toList
  | list items => '(' :: (writeAll items ++ [')'])

/-- Forms with a space between each and the next. -/
def writeAll : List Form → List Char
  | [] => []
  | f :: rest => f.write ++ writeBehind rest

/-- Forms, each behind a space. -/
def writeBehind : List Form → List Char
  | [] => []
  | f :: rest => ' ' :: (f.write ++ writeBehind rest)

end

/-! ## Reading back -/

/-- No space and no parenthesis. -/
def isWordPart (c : Char) : Bool := c != ' ' && c != '(' && c != ')'

/-- A text that can be told apart from what stands behind it. -/
structure IsWordText (text : String) : Prop where
  nonempty : text.toList ≠ []
  parts : text.toList.all isWordPart = true

theorem IsWordText.isWordPart {text : String} (h : IsWordText text) :
    ∀ c ∈ text.toList, isWordPart c = true := List.all_eq_true.mp h.parts

/-- Each word in the form can be told apart. -/
inductive Legible : Form → Prop
  | word {text : String} (h : IsWordText text) : Legible (word text)
  | list {items : List Form} (h : ∀ f ∈ items, Legible f) : Legible (list items)

/-- The end, or what stands behind a part of a list. -/
def Ends (behind : List Char) : Prop := ∀ c ∈ behind.head?, isWordPart c = false ∧ c ≠ '('

/-- The form and what stands behind it are found again in their text. -/
def ReadsBack (f : Form) : Prop :=
  ∀ {f' : Form} {behind behind' : List Char}, f'.Legible → Ends behind → Ends behind' →
    f.write ++ behind = f'.write ++ behind' → f = f' ∧ behind = behind'

section
variable {behind behind' : List Char}

theorem ends_close (behind : List Char) : Ends (')' :: behind) := by
  rintro c ⟨⟩
  decide

theorem ends_behind (items : List Form) (behind : List Char) :
    Ends (writeBehind items ++ ')' :: behind) := by
  cases items with
  | nil => exact ends_close behind
  | cons f rest =>
    rintro c ⟨⟩
    decide

/-- A form starts with its first word or a parenthesis. -/
theorem Legible.starts {f : Form} (h : f.Legible) :
    ∃ c rest, f.write = c :: rest ∧ (isWordPart c = true ∨ c = '(') := by
  cases h with
  | @word text h =>
    obtain ⟨c, rest, htext⟩ := List.exists_cons_of_ne_nil h.nonempty
    exact ⟨c, rest, htext, .inl (h.isWordPart c (htext ▸ List.mem_cons_self))⟩
  | list => exact ⟨'(', _, rfl, .inr rfl⟩

theorem readsBack_word {text : String} (h : IsWordText text) : (word text).ReadsBack := by
  intro f' behind behind' h' hends hends' heq
  have hstop {behind : List Char} (hends : Ends behind) :
      ∀ b ∈ behind.head?, isWordPart b = false := fun b hb => (hends b hb).1
  obtain ⟨htake, hdrop⟩ := run_append h.isWordPart (hstop hends)
  cases h' with
  | @word text' h' =>
    obtain ⟨htake', hdrop'⟩ := run_append h'.isWordPart (hstop hends')
    have heq : text.toList ++ behind = text'.toList ++ behind' := heq
    rw [heq] at htake hdrop
    rw [String.toList_inj.mp (htake.symm.trans htake')]
    exact ⟨rfl, hdrop.symm.trans hdrop'⟩
  | list =>
    obtain ⟨c, rest, htext⟩ := List.exists_cons_of_ne_nil h.nonempty
    have hc := h.isWordPart c (htext ▸ List.mem_cons_self)
    have heq : text.toList ++ behind = '(' :: _ := heq
    rw [htext] at heq
    rw [(List.cons.inj heq).1] at hc
    cases hc

/-- Parts of a list, each behind a space, up to its end. -/
theorem readsBack_behind {items items' : List Form} (h : ∀ f ∈ items, f.ReadsBack)
    (h' : ∀ f ∈ items', f.Legible)
    (heq : writeBehind items ++ ')' :: behind = writeBehind items' ++ ')' :: behind') :
    items = items' ∧ behind = behind' := by
  induction items generalizing items' with
  | nil =>
    cases items' with
    | nil =>
      cases heq
      exact ⟨rfl, rfl⟩
    | cons f' rest' => cases heq
  | cons f rest ih =>
    cases items' with
    | nil => cases heq
    | cons f' rest' =>
      obtain ⟨hf, hrest⟩ := List.forall_mem_cons.mp h
      obtain ⟨hf', hrest'⟩ := List.forall_mem_cons.mp h'
      simp only [writeBehind, List.cons_append, List.append_assoc, List.cons.injEq,
        true_and] at heq
      obtain ⟨rfl, hmore⟩ := hf hf' (ends_behind rest behind) (ends_behind rest' behind') heq
      obtain ⟨rfl, rfl⟩ := ih hrest hrest' hmore
      exact ⟨rfl, rfl⟩

/-- All parts of a list, up to its end. -/
theorem readsBack_all {items items' : List Form} (h : ∀ f ∈ items, f.ReadsBack)
    (hlegible : ∀ f ∈ items, f.Legible) (h' : ∀ f ∈ items', f.Legible)
    (heq : writeAll items ++ ')' :: behind = writeAll items' ++ ')' :: behind') :
    items = items' ∧ behind = behind' := by
  have hclose (f : Form) (hf : f.Legible) (rest behind behind' : List Char) :
      ')' :: behind ≠ f.write ++ rest ++ ')' :: behind' := by
    obtain ⟨c, more, hwrite, hc⟩ := hf.starts
    rw [hwrite]
    rintro ⟨⟩
    revert hc
    decide
  cases items with
  | nil =>
    cases items' with
    | nil =>
      cases heq
      exact ⟨rfl, rfl⟩
    | cons f' rest' =>
      exact absurd heq (hclose f' (h' f' List.mem_cons_self) _ _ _)
  | cons f rest =>
    cases items' with
    | nil => exact absurd heq.symm (hclose f (hlegible f List.mem_cons_self) _ _ _)
    | cons f' rest' =>
      obtain ⟨hf, hrest⟩ := List.forall_mem_cons.mp h
      obtain ⟨hf', hrest'⟩ := List.forall_mem_cons.mp h'
      simp only [writeAll, List.append_assoc] at heq
      obtain ⟨rfl, hmore⟩ := hf hf' (ends_behind rest behind) (ends_behind rest' behind') heq
      obtain ⟨rfl, rfl⟩ := readsBack_behind hrest hrest' hmore
      exact ⟨rfl, rfl⟩

theorem Legible.readsBack {f : Form} (h : f.Legible) : f.ReadsBack := by
  induction h with
  | word h => exact readsBack_word h
  | @list items h ih =>
    intro f' behind behind' h' hends hends' heq
    cases h' with
    | @word text' h' =>
      obtain ⟨hform, -⟩ := readsBack_word h' (.list h) hends' hends heq.symm
      cases hform
    | @list items' h' =>
      simp only [write, List.cons_append, List.append_assoc, List.cons.injEq, true_and,
        List.nil_append] at heq
      obtain ⟨rfl, rfl⟩ := readsBack_all ih h h' heq
      exact ⟨rfl, rfl⟩

/-- **Legible forms with one text are the same.** -/
theorem Legible.write_injective {f f' : Form} (h : f.Legible) (h' : f'.Legible)
    (heq : f.write = f'.write) : f = f' := by
  have hend : Ends [] := fun _ hc => nomatch hc
  have heq : f.write ++ [] = f'.write ++ [] := by rw [heq]
  exact (h.readsBack h' hend hend heq).1

end

end Form

end LoxLang
