import CocosOS.Library.CLexer

/-!
# C texts that a program writes

A program that writes C puts texts between quotes and its own text around them; an `Item` is a
piece of that, with the tokens it is meant to be read as. If the texts are clean, the tokens are the
intended ones (`run_items`). Conversely, if the intended tokens can be found at all in what is read,
then the texts are clean (`clean_of_follows`): what a text that is not clean loses cannot be made up
for by later texts, however they are chosen.

The reason is where string literals end. A literal that denotes the content of an item and ends
behind the quote that was meant for it leaves too little for the contents of the later items
(`not_follows_of_late`), and a literal that ends there has lost nothing.
-/

set_option autoImplicit false

namespace CocosOS.Library.CLexer

/-! ## Items -/

/-- A piece of a text that a program writes, with the tokens it means: its own text, or a text
between quotes with more of its own text behind. -/
inductive Item where
  | plain (text : Text) (tokens : List Token)
  | quoted (content : Text) (text : Text) (tokens : List Token)

namespace Item

def text : Item → Text
  | .plain text _ => text
  | .quoted content text _ => '"' :: content ++ '"' :: text

def tokens : Item → List Token
  | .plain _ tokens => tokens
  | .quoted content _ tokens => .string content :: tokens

/-- What is written between quotes. -/
def contents : Item → List Text
  | .plain .. => []
  | .quoted content _ _ => [content]

end Item

/-- The text has no quote and reads as the tokens. -/
def Plain (text : Text) (tokens : List Token) : Prop :=
  run .start text = some (tokens, .start) ∧ '"' ∉ text

instance (text : Text) (tokens : List Token) : Decidable (Plain text tokens) :=
  inferInstanceAs (Decidable (_ ∧ _))

theorem Plain.append {a b : Text} {s t : List Token} (front : Plain a s) (back : Plain b t) :
    Plain (a ++ b) (s ++ t) := by
  refine ⟨?_, fun member => (List.mem_append.mp member).elim front.2 back.2⟩
  rw [run_append_of_eq b front.1, back.1]
  rfl

theorem Plain.not_string {text : Text} {tokens : List Token} (plain : Plain text tokens)
    (s : Text) : .string s ∉ tokens := by
  intro member
  obtain ⟨before, after, rfl⟩ := List.append_of_mem member
  obtain ⟨a, b, rfl, -, -⟩ := run_cut plain.1
  exact plain.2 (List.mem_append_right a List.mem_cons_self)

/-- The program's own text has no quote and means the tokens that it is read as. -/
def Item.Sound : Item → Prop
  | .plain text tokens => Plain text tokens
  | .quoted _ text tokens => Plain text tokens

def textOf (items : List Item) : Text := items.flatMap Item.text

def tokensOf (items : List Item) : List Token := items.flatMap Item.tokens

/-- **If what is between quotes is clean, the tokens are the intended ones.** -/
theorem run_items {items : List Item} (sound : ∀ item ∈ items, item.Sound)
    (clean : ∀ item ∈ items, ∀ s ∈ item.contents, Clean s) :
    run .start (textOf items) = some (tokensOf items, .start) := by
  induction items with
  | nil => rfl
  | cons item items ih =>
      have rest := ih (fun other member => sound other (List.mem_cons_of_mem _ member))
        fun other member => clean other (List.mem_cons_of_mem _ member)
      have here : run .start item.text = some (item.tokens, .start) := by
        have own := sound item List.mem_cons_self
        cases item with
        | plain text tokens => exact own.1
        | quoted content text tokens =>
            have literal := run_string_of_clean (clean _ List.mem_cons_self content
              (List.mem_singleton.mpr rfl)) []
            have opens : step .start '"' = some ([], .string []) := by decide
            rw [Item.text, List.cons_append, run_cons opens, List.append_cons,
              run_append_of_eq text literal, own.1]
            rfl
      rw [textOf, List.flatMap_cons, run_append_of_eq _ here]
      rw [textOf] at rest
      rw [rest]
      rfl

/-! ## The intended tokens in what is read -/

/-- The tokens begin with the given ones and go on with those that the items mean, where several
string tokens may stand for the content of one item. Anything may follow. -/
def Follows : List Token → List Item → List Token → Prop
  | given, [], tokens => given <+: tokens
  | given, .plain _ own :: items, tokens => Follows (given ++ own) items tokens
  | given, .quoted content _ own :: items, tokens =>
    ∃ (parts : List Text) (last : Text) (rest : List Token),
      tokens = given ++ (parts ++ [last]).map Token.string ++ rest ∧
      (parts ++ [last]).flatten = content ∧ Follows own items rest

theorem weight_map_string (parts : List Text) :
    weight (parts.map Token.string) = parts.flatten.length + 2 * parts.length := by
  induction parts with
  | nil => rfl
  | cons part parts ih =>
      rw [List.map_cons, weight, ih, List.flatten_cons, List.length_append, List.length_cons]
      omega

/-- The literals of an item cost its content and two quotes at least, and a quote is the last that
is read of them. -/
theorem length_weight_le {q q' : Lexer} {text content final : Text} {parts : List Text}
    {given : List Token}
    (whole : run q (text ++ ['"']) =
      some ((given ++ parts.map Token.string) ++ [.string final], q'))
    (same : (parts ++ [final]).flatten = content) :
    content.length + 2 * parts.length + 1 ≤ pending q + text.length := by
  have bound := run_weight whole
  rw [weight_append, weight_append, weight_map_string, weight, weight, List.length_append,
    List.length_singleton] at bound
  rw [← same, List.flatten_append, List.flatten_singleton, List.length_append]
  omega

/-- What a program writes last, behind everything that it puts between quotes. Read from behind one
of its quotes, it does not begin with the tokens. -/
def NeverIn (last : Text) (tokens : List Token) : Prop :=
  ∀ a b read, last = a ++ '"' :: b → run .start b = some (read, .start) → ¬ tokens <+: read

/-- A text without quotes in front changes nothing. -/
theorem NeverIn.of_append {last a : Text} {tokens : List Token} (quoteless : '"' ∉ a)
    (never : NeverIn last tokens) : NeverIn (a ++ last) tokens := by
  intro b c read split reads
  obtain ⟨b', -, split'⟩ := append_cut split quoteless
  exact never b' c read split' reads

/-- The quotes of a text, one by one. -/
def neverIn (tokens : List Token) : Text → Bool
  | [] => true
  | c :: rest =>
    (c != '"' || match run .start rest with
      | some (read, .start) => !tokens.isPrefixOf read
      | _ => true) && neverIn tokens rest

theorem neverIn_iff {last : Text} {tokens : List Token} :
    neverIn tokens last = true ↔ NeverIn last tokens := by
  induction last with
  | nil =>
      refine iff_of_true rfl fun a b read split => ?_
      exact absurd split.symm (List.append_ne_nil_of_right_ne_nil a (List.cons_ne_nil _ _))
  | cons c rest ih =>
      rw [neverIn, Bool.and_eq_true, ih]
      constructor
      · rintro ⟨here, later⟩ a b read split reads
        cases a with
        | nil =>
            obtain ⟨rfl, rfl⟩ := List.cons.inj split
            rw [reads] at here
            simpa [← List.isPrefixOf_iff_prefix] using here
        | cons d a =>
            obtain ⟨-, behind⟩ := List.cons.inj split
            exact later a b read behind reads
      · intro never
        refine ⟨?_, fun a b read split => never (c :: a) b read (congrArg (c :: ·) split)⟩
        by_cases quote : c = '"'
        · subst quote
          simp only [bne_self_eq_false, Bool.false_or]
          split
          · rename_i read reads
            simpa [← List.isPrefixOf_iff_prefix] using never [] rest read rfl reads
          · rfl
        · simp [quote]

instance (last : Text) (tokens : List Token) : Decidable (NeverIn last tokens) :=
  decidable_of_iff _ neverIn_iff

theorem NeverIn.append {last : Text} {tokens : List Token} (never : NeverIn last tokens)
    (more : List Token) : NeverIn last (tokens ++ more) :=
  fun a b read split reads begins =>
    never a b read split reads ((List.prefix_append tokens more).trans begins)

/-- The tokens behind the content of every item are not met in the last text. -/
def EndsIn (last : Text) (items : List Item) : Prop :=
  ∀ content text tokens, .quoted content text tokens ∈ items → NeverIn last tokens

/-- **A string literal that ends too late is followed by other tokens**: no string literal that ends
behind the content of an item is followed by the tokens behind that content. -/
theorem not_follows_of_late {last : Text} {items : List Item} (sound : ∀ item ∈ items, item.Sound)
    (ends : EndsIn last items) :
    ∀ {text : Text} {given : List Token}, '"' ∉ text → NeverIn last given →
      ∀ {a b : Text} {tokens : List Token}, text ++ (textOf items ++ last) = a ++ '"' :: b →
        run .start b = some (tokens, .start) → ¬ Follows given items tokens := by
  induction items with
  | nil =>
      intro text given quoteless never a b tokens split reads follows
      obtain ⟨a', -, split'⟩ := append_cut split quoteless
      exact never a' b tokens split' reads follows
  | cons item items ih =>
      have sound' := fun other member => sound other (List.mem_cons_of_mem item member)
      have ends' : EndsIn last items :=
        fun content text tokens member => ends content text tokens (List.mem_cons_of_mem _ member)
      intro text given quoteless never a b tokens split reads follows
      have own := sound item List.mem_cons_self
      cases item with
      | plain text' own' =>
          have joined : '"' ∉ text ++ text' :=
            fun member => (List.mem_append.mp member).elim quoteless own.2
          have moved : (text ++ text') ++ (textOf items ++ last) = a ++ '"' :: b := by
            rw [← split]
            simp [textOf, Item.text]
          exact ih sound' ends' joined (never.append own') moved reads follows
      | quoted content text' own' =>
          obtain ⟨parts, final, rest, rfl, content_eq, follows'⟩ := follows
          have later := ends content text' own' List.mem_cons_self
          -- the literal of this item is read behind the quote at `a`, so it ends late as well
          obtain ⟨a', -, split'⟩ := append_cut split quoteless
          have whole : run .start b =
              some ((given ++ parts.map Token.string) ++ .string final :: rest, .start) := by
            rw [reads]
            simp
          obtain ⟨c, d, rfl, front, back⟩ := run_cut whole
          have cost := length_weight_le front content_eq
          have unpaid : pending .start = 0 := rfl
          have pieces := calc
            ('"' :: content ++ ['"']) ++ (text' ++ (textOf items ++ last))
            _ = textOf (.quoted content text' own' :: items) ++ last := by simp [textOf, Item.text]
            _ = (a' ++ '"' :: c) ++ '"' :: d := by rw [split']; simp
          obtain ⟨e, -, behind⟩ := append_cut_of_length pieces (by simp; omega)
          exact ih sound' ends' own.2 later behind back follows'

/-- The literals of an item lie behind what was read before, if no string was read. -/
theorem literals_behind {passed read skipped given rest : List Token} {parts : List Text}
    {final : Text} (stringless : ∀ s, .string s ∉ passed)
    (same : passed ++ read =
      skipped ++ (given ++ (parts ++ [final]).map Token.string ++ rest)) :
    ∃ before, read = (before ++ parts.map Token.string) ++ .string final :: rest := by
  cases parts with
  | nil =>
      have cut : passed ++ read = (skipped ++ given) ++ .string final :: rest := by
        rw [same]
        simp
      obtain ⟨before, -, behind⟩ := append_cut cut (stringless final)
      exact ⟨before, by simpa using behind⟩
  | cons part parts =>
      have cut : passed ++ read = (skipped ++ given) ++
          .string part :: (parts.map Token.string ++ .string final :: rest) := by
        rw [same]
        simp
      obtain ⟨before, -, behind⟩ := append_cut cut (stringless part)
      exact ⟨before, by simpa using behind⟩

/-- **Literals that denote the content and do not end late are one clean literal**, which ends with
the quote of the program and has lost nothing. -/
theorem clean_of_early {content final a b more : Text} {parts : List Text} {before : List Token}
    (split : ('"' :: content ++ ['"']) ++ more = a ++ '"' :: b)
    (front : run .start (a ++ ['"']) =
      some ((before ++ parts.map Token.string) ++ [.string final], .start))
    (same : (parts ++ [final]).flatten = content) (early : a.length ≤ content.length + 1) :
    Clean content ∧ b = more := by
  have cost := length_weight_le front same
  have unpaid : pending .start = 0 := rfl
  obtain rfl : parts = [] := List.length_eq_zero_iff.mp (by omega)
  obtain rfl : final = content := by simpa using same
  have shape : (('"' :: final) ++ ['"']) ++ more = (a ++ ['"']) ++ b :=
    split.trans (List.append_cons a '"' b)
  obtain ⟨heads, rfl⟩ := List.append_inj shape (by simp at cost ⊢; omega)
  obtain rfl : '"' :: final = a := List.append_cancel_right heads
  have opens : step .start '"' = some ([], .string []) := by decide
  rw [List.cons_append, run_cons opens, Option.map_eq_some_iff] at front
  obtain ⟨⟨tokens, q⟩, literal, result⟩ := front
  have listed := (Prod.mk.inj result).1
  have member : .string final ∈ tokens := by
    rw [List.nil_append] at listed
    rw [show tokens = _ from listed]
    simp
  exact ⟨(clean_of_run_string literal member (by simp)).1, rfl⟩

/-- **If the intended tokens can be found in what is read, what is between quotes is clean.** -/
theorem clean_of_follows {last : Text} {items : List Item} (sound : ∀ item ∈ items, item.Sound)
    (ends : EndsIn last items) :
    ∀ {read : List Token}, run .start (textOf items ++ last) = some (read, .start) →
      ∀ {passed skipped given tokens : List Token}, (∀ s, .string s ∉ passed) →
        passed ++ read = skipped ++ tokens → Follows given items tokens →
        ∀ item ∈ items, ∀ s ∈ item.contents, Clean s := by
  induction items with
  | nil => exact fun _ _ _ _ _ _ _ _ _ member => absurd member List.not_mem_nil
  | cons item items ih =>
      have sound' := fun other member => sound other (List.mem_cons_of_mem item member)
      have ends' : EndsIn last items :=
        fun content text tokens member => ends content text tokens (List.mem_cons_of_mem _ member)
      intro read reads passed skipped given tokens stringless same follows
      have own := sound item List.mem_cons_self
      cases item with
      | plain text own' =>
          have pieces : textOf (.plain text own' :: items) ++ last =
              text ++ (textOf items ++ last) := by simp [textOf, Item.text]
          rw [pieces] at reads
          obtain ⟨front, middle, back, here, behind, rfl⟩ := run_append_eq_some reads
          obtain ⟨rfl, rfl⟩ := Prod.mk.inj (Option.some.inj (own.1.symm.trans here))
          have none : ∀ s, .string s ∉ passed ++ own' := fun s member =>
            (List.mem_append.mp member).elim (stringless s) (own.not_string s)
          have rest := ih sound' ends' behind none ((List.append_assoc _ _ _).trans same) follows
          intro other member
          rcases List.mem_cons.mp member with rfl | inside
          · exact fun s written => absurd written List.not_mem_nil
          · exact rest other inside
      | quoted content text own' =>
          obtain ⟨parts, final, rest, rfl, content_eq, follows'⟩ := follows
          have pieces : textOf (.quoted content text own' :: items) ++ last =
              ('"' :: content ++ ['"']) ++ (text ++ (textOf items ++ last)) := by
            simp [textOf, Item.text]
          rw [pieces] at reads
          obtain ⟨before, rfl⟩ := literals_behind stringless same
          obtain ⟨a, b, split, front, back⟩ := run_cut reads
          have early : a.length ≤ content.length + 1 := by
            by_contra late
            obtain ⟨e, -, behind⟩ := append_cut_of_length split (by simp; omega)
            exact not_follows_of_late sound' ends' own.2
              (ends content text own' List.mem_cons_self) behind back follows'
          obtain ⟨clean, rfl⟩ := clean_of_early split front content_eq early
          obtain ⟨front, middle, back', here, behind, rfl⟩ := run_append_eq_some back
          obtain ⟨rfl, rfl⟩ := Prod.mk.inj (Option.some.inj (own.1.symm.trans here))
          have others := ih sound' ends' behind own.not_string (List.nil_append _).symm follows'
          intro other inside s written
          rcases List.mem_cons.mp inside with rfl | later
          · rw [List.mem_singleton.mp written]
            exact clean
          · exact others other later s written

/-! ## The intended tokens, joined -/

/-- The contents of two items do not meet. -/
def Item.Parted : Item → Prop
  | .plain .. => True
  | .quoted _ _ tokens => tokens ≠ []

/-- The intended tokens of items that are parted have nothing to join. -/
theorem join_tokensOf {items : List Item} (sound : ∀ item ∈ items, item.Sound)
    (parted : ∀ item ∈ items, item.Parted) (rest : List Token) :
    join (tokensOf items ++ rest) = tokensOf items ++ join rest := by
  induction items with
  | nil => rfl
  | cons item items ih =>
      have ih := ih (fun other member => sound other (List.mem_cons_of_mem _ member))
        fun other member => parted other (List.mem_cons_of_mem _ member)
      have own := sound item List.mem_cons_self
      rw [tokensOf, List.flatMap_cons, List.append_assoc, List.append_assoc]
      rw [tokensOf] at ih
      cases item with
      | plain text tokens =>
          rw [Item.tokens, join_append own.not_string, ih]
      | quoted content text tokens =>
          have behind := join_append own.not_string (items.flatMap Item.tokens ++ rest)
          have apart : tokens ≠ [] := parted _ List.mem_cons_self
          rw [Item.tokens, List.cons_append]
          rcases join_string content (tokens ++ (items.flatMap Item.tokens ++ rest)) with
            ⟨s, more, joined, -⟩ | ⟨-, same⟩
          · rw [behind] at joined
            cases tokens with
            | nil => exact absurd rfl apart
            | cons token tokens =>
                exact absurd ((List.cons.inj joined).1 ▸ List.mem_cons_self) (own.not_string s)
          · rw [same, behind, ih]
            rfl

/-- What is joined to the intended tokens are the intended tokens. -/
theorem follows_of_join {items : List Item} (sound : ∀ item ∈ items, item.Sound)
    (parted : ∀ item ∈ items, item.Parted) :
    ∀ {given tokens rest : List Token}, (∀ s, .string s ∉ given) →
      join tokens = given ++ (tokensOf items ++ rest) → Follows given items tokens := by
  induction items with
  | nil =>
      intro given tokens rest stringless joined
      obtain ⟨rest', rfl, -⟩ := join_eq_append stringless joined
      exact List.prefix_append given rest'
  | cons item items ih =>
      have ih := @ih (fun other member => sound other (List.mem_cons_of_mem _ member))
        fun other member => parted other (List.mem_cons_of_mem _ member)
      intro given tokens rest stringless joined
      have own := sound item List.mem_cons_self
      cases item with
      | plain text own' =>
          refine @ih (given ++ own') tokens rest (fun s member =>
            (List.mem_append.mp member).elim (stringless s) (own.not_string s)) ?_
          rw [joined]
          simp [tokensOf, Item.tokens]
      | quoted content text own' =>
          have apart : own' ≠ [] := parted _ List.mem_cons_self
          cases own' with
          | nil => exact absurd rfl apart
          | cons token own' =>
              have plain : ∀ s, token ≠ .string s :=
                fun s same => own.not_string s (same ▸ List.mem_cons_self)
              obtain ⟨tokens', rfl, joined'⟩ := join_eq_append stringless joined
              have cut : join tokens' = [.string content] ++
                  token :: (own' ++ (tokensOf items ++ rest)) := by
                rw [joined']
                simp [tokensOf, Item.tokens]
              obtain ⟨before, after, rfl, single, behind⟩ := join_cut plain cut
              obtain ⟨parts, last, rfl, content_eq⟩ := eq_map_of_join single
              refine ⟨parts, last, token :: after, by simp, content_eq, ?_⟩
              refine @ih (token :: own') (token :: after) rest own.not_string ?_
              rw [join_cons plain, behind]
              rfl

end CocosOS.Library.CLexer
