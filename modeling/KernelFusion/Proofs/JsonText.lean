import KernelFusion.Json.Pretty

/-!
# Reading indented JSON

The indented text of a tree is cut into the tokens of the tree, and these are read as the tree. Line
breaks and indentation disappear on the way. All that is asked of a tree is that its numbers have
the form of numbers and that the bodies of its strings do not end before their quotes.
-/

namespace KernelFusion.Json

mutual

/-- The tokens of a tree. -/
def tokens : Json → List Token
  | .null => [.null]
  | .bool value => [.bool value]
  | .number lexeme => [.number lexeme]
  | .string body => [.string body]
  | .array [] => [.openArray, .closeArray]
  | .array (item :: items) => .openArray :: (item.tokens ++ (itemTokens items ++ [.closeArray]))
  | .object [] => [.openObject, .closeObject]
  | .object ((key, value) :: members) =>
    .openObject :: .string key :: .colon ::
      (value.tokens ++ (memberTokens members ++ [.closeObject]))

/-- The tokens of the items behind the first. -/
def itemTokens : List Json → List Token
  | [] => []
  | item :: items => .comma :: (item.tokens ++ itemTokens items)

/-- The tokens of the members behind the first. -/
def memberTokens : List (Bytes × Json) → List Token
  | [] => []
  | (key, value) :: members =>
    .comma :: .string key :: .colon :: (value.tokens ++ memberTokens members)

end

/-- The bytes have the form of a number. -/
structure Numeral (lexeme : Bytes) : Prop where
  /-- They start with a digit or a minus sign. -/
  head : ∃ b rest, lexeme = b :: rest ∧ (b = 0x2d ∨ isDigit b = true)
  /-- All of them can stand in a number. -/
  bytes : ∀ b ∈ lexeme, isNumberByte b = true
  /-- The number has its parts. -/
  parts : (numberParts? lexeme).isSome = true

/-- A quote behind the bytes ends the string that they are in, and they are its body. -/
def Quotable (body : Bytes) : Prop :=
  ∀ seen next, lex? (.text seen) (body ++ 0x22 :: next) =
    (lex? .between next).map (.string (seen.reverse ++ body) :: ·)

/-- The numbers and strings of the tree have the form of numbers and strings. -/
inductive Lexical : Json → Prop where
  /-- No value. -/
  | null : Lexical .null
  /-- A truth value. -/
  | bool (value : Bool) : Lexical (.bool value)
  /-- A number. -/
  | number {lexeme : Bytes} (h : Numeral lexeme) : Lexical (.number lexeme)
  /-- A string. -/
  | string {body : Bytes} (h : Quotable body) : Lexical (.string body)
  /-- An array of such trees. -/
  | array {items : List Json} (h : ∀ item ∈ items, Lexical item) : Lexical (.array items)
  /-- An object of such trees. -/
  | object {members : List (Bytes × Json)} (hkeys : ∀ m ∈ members, Quotable m.1)
      (hvalues : ∀ m ∈ members, Lexical m.2) : Lexical (.object members)

/-- The bytes that follow a value in an indented text: none, a comma or a line break. -/
def Stops (next : Bytes) : Prop := ∀ b ∈ next.head?, b = 0x2c ∨ b = 0x0a

section Lexemes

variable {b : UInt8} {next : Bytes}

theorem isDigit_iff : isDigit b = true ↔ 0x30 ≤ b.toNat ∧ b.toNat ≤ 0x39 := by
  simp only [isDigit, Bool.and_eq_true, decide_eq_true_eq, UInt8.le_iff_toNat_le]
  exact Iff.rfl

/-- A digit or a minus sign starts a number. -/
theorem startToken?_number (h : b = 0x2d ∨ isDigit b = true) :
    startToken? b = some ([], .number [b]) := by
  rcases h with rfl | h
  · rfl
  · have hnumber : isNumberByte b = true := by simp [isNumberByte, h]
    have hspace : isSpace b = false := by
      refine Bool.eq_false_iff.mpr (fun hb => ?_)
      simp only [isSpace, Bool.or_eq_true, beq_iff_eq] at hb
      rcases hb with ((rfl | rfl) | rfl) | rfl <;> cases h
    have hquote : (b == 0x22) = false := by
      refine Bool.eq_false_iff.mpr (fun hb => ?_)
      obtain rfl := eq_of_beq hb
      cases h
    have hletter : isLetter b = false := by
      have hle := (isDigit_iff.mp h).2
      refine Bool.eq_false_iff.mpr (fun hb => ?_)
      simp only [isLetter, Bool.and_eq_true, decide_eq_true_eq, UInt8.le_iff_toNat_le] at hb
      have hge : 0x61 ≤ b.toNat := hb.1
      omega
    simp [startToken?, hspace, hquote, hletter, hnumber]

/-- A byte that closes no token moves the machine on. -/
theorem lex?_silent {state state' : Lexing} (h : lexByte? state b = some ([], state'))
    (rest : Bytes) : lex? state (b :: rest) = lex? state' rest := by
  rw [lex?, h]
  exact Option.map_id_apply

/-- A byte that is a token by itself. -/
theorem lex?_mark {token : Token} (h : startToken? b = some ([token], .between)) (next : Bytes) :
    lex? .between (b :: next) = (lex? .between next).map (token :: ·) := by
  have hbyte : lexByte? .between b = some ([token], .between) := h
  rw [lex?, hbyte]
  rfl

/-- Line breaks and indentation are skipped. -/
theorem lex?_newline (level : Nat) (next : Bytes) :
    lex? .between (newline level next) = lex? .between next := by
  have hspaces : ∀ n, lex? .between (List.replicate n 0x20 ++ next) = lex? .between next := by
    intro n
    induction n with
    | zero => rfl
    | succ n ih => exact (lex?_silent rfl _).trans ih
  exact (lex?_silent rfl _).trans (hspaces (2 * level))

/-- A string between its quotes. -/
theorem lex?_quote {body : Bytes} (h : Quotable body) (next : Bytes) :
    lex? .between (quote body next) = (lex? .between next).map (.string body :: ·) :=
  (lex?_silent rfl _).trans (h [] next)

/-- A token that goes on as long as its bytes are accepted and is closed by what follows. -/
theorem lex?_lexeme (state : Bytes → Lexing) (accepts : UInt8 → Bool)
    (finish : Bytes → Option Token) {rest : Bytes} {token : Token}
    (hstep : ∀ seen c, accepts c = true → lexByte? (state seen) c = some ([], state (c :: seen)))
    (hclose : ∀ seen c, accepts c = false →
      lexByte? (state seen) c = closeToken? (finish seen.reverse) c)
    (hend : ∀ seen, lexEnd? (state seen) = (finish seen.reverse).map ([·]))
    (hstops : accepts 0x2c = false ∧ accepts 0x0a = false)
    (hfirst : startToken? b = some ([], state [b])) (hrest : ∀ c ∈ rest, accepts c = true)
    (htoken : finish (b :: rest) = some token) (hs : Stops next) :
    lex? .between (b :: rest ++ next) = (lex? .between next).map (token :: ·) := by
  have hrun : ∀ bytes seen, (∀ c ∈ bytes, accepts c = true) →
      lex? (state seen) (bytes ++ next) = lex? (state (bytes.reverse ++ seen)) next := by
    intro bytes
    induction bytes with
    | nil => exact fun _ _ => rfl
    | cons c bytes ih =>
      intro seen haccepts
      have hlater := ih (c :: seen) (fun d hd => haccepts d (List.mem_cons_of_mem c hd))
      rw [List.reverse_cons, List.append_assoc]
      exact (lex?_silent (hstep seen c (haccepts c List.mem_cons_self)) _).trans hlater
  have hseen : finish (rest.reverse ++ [b]).reverse = some token := by
    rw [List.reverse_append, List.reverse_reverse]
    exact htoken
  have hstart : lexByte? .between b = some ([], state [b]) := hfirst
  refine ((lex?_silent hstart _).trans (hrun rest [b] hrest)).trans ?_
  cases next with
  | nil => exact (hend _).trans (congrArg (Option.map ([·])) hseen)
  | cons c later =>
    have haccepts : accepts c = false := by
      rcases hs c rfl with rfl | rfl
      · exact hstops.1
      · exact hstops.2
    have hbyte : lexByte? .between c = startToken? c := rfl
    rw [lex?, hclose _ _ haccepts, hseen, lex?, hbyte]
    simp only [closeToken?]
    rcases startToken? c with _ | ⟨ts, state'⟩
    · rfl
    · simp only [Option.map_map, Function.comp_def, List.cons_append]

/-- A number. -/
theorem lex?_number {lexeme : Bytes} (h : Numeral lexeme) (hs : Stops next) :
    lex? .between (lexeme ++ next) = (lex? .between next).map (.number lexeme :: ·) := by
  obtain ⟨b, rest, rfl, hb⟩ := h.head
  exact lex?_lexeme .number isNumberByte numberToken? (fun _ _ hc => if_pos hc)
    (fun _ _ hc => if_neg (Bool.eq_false_iff.mp hc)) (fun _ => rfl) ⟨rfl, rfl⟩
    (startToken?_number hb) (fun c hc => h.bytes c (List.mem_cons_of_mem b hc)) (if_pos h.parts) hs

/-- A word. -/
theorem lex?_word {rest : Bytes} {token : Token} (hb : startToken? b = some ([], .word [b]))
    (hrest : ∀ c ∈ rest, isLetter c = true) (htoken : wordToken? (b :: rest) = some token)
    (hs : Stops next) :
    lex? .between (b :: rest ++ next) = (lex? .between next).map (token :: ·) :=
  lex?_lexeme .word isLetter wordToken? (fun _ _ hc => if_pos hc)
    (fun _ _ hc => if_neg (Bool.eq_false_iff.mp hc)) (fun _ => rfl) ⟨rfl, rfl⟩ hb hrest htoken hs

end Lexemes

section Trees

theorem stops_nil : Stops [] := fun _ h => nomatch h

theorem stops_comma (next : Bytes) : Stops (0x2c :: next) := by
  rintro b ⟨⟩
  exact Or.inl rfl

theorem stops_newline (level : Nat) (next : Bytes) : Stops (newline level next) := by
  rintro b ⟨⟩
  exact Or.inr rfl

/-- A value of which the text is cut into its tokens, whatever follows. -/
def Lexes (j : Json) : Prop :=
  ∀ level next, Stops next →
    lex? .between (prettyAt level j next) = (lex? .between next).map (j.tokens ++ ·)

/-- What follows the first item of an array starts with a comma or a line break. -/
theorem stops_prettyItems (level level' : Nat) (items : List Json) (next : Bytes) :
    Stops (prettyItems level items (newline level' next)) := by
  cases items with
  | nil => exact stops_newline level' next
  | cons item items => exact stops_comma _

theorem stops_prettyMembers (level level' : Nat) (members : List (Bytes × Json)) (next : Bytes) :
    Stops (prettyMembers level members (newline level' next)) := by
  cases members with
  | nil => exact stops_newline level' next
  | cons m members => exact stops_comma _

/-- The items behind the first. -/
theorem lex?_prettyItems {items : List Json} (h : ∀ item ∈ items, Lexes item)
    (level level' : Nat) (next : Bytes) :
    lex? .between (prettyItems level items (newline level' next)) =
      (lex? .between next).map (itemTokens items ++ ·) := by
  induction items with
  | nil => exact (lex?_newline level' next).trans Option.map_id_apply.symm
  | cons item items ih =>
    have hitem := h item List.mem_cons_self level _ (stops_prettyItems level level' items next)
    have hitems := ih (fun i hi => h i (List.mem_cons_of_mem item hi))
    rw [prettyItems, lex?_mark rfl, lex?_newline, hitem, hitems]
    simp only [itemTokens, Option.map_map, Function.comp_def, List.cons_append, List.append_assoc]

/-- The members behind the first. -/
theorem lex?_prettyMembers {members : List (Bytes × Json)} (hkeys : ∀ m ∈ members, Quotable m.1)
    (h : ∀ m ∈ members, Lexes m.2) (level level' : Nat) (next : Bytes) :
    lex? .between (prettyMembers level members (newline level' next)) =
      (lex? .between next).map (memberTokens members ++ ·) := by
  induction members with
  | nil => exact (lex?_newline level' next).trans Option.map_id_apply.symm
  | cons m members ih =>
    obtain ⟨key, value⟩ := m
    have hvalue := h (key, value) List.mem_cons_self level _
      (stops_prettyMembers level level' members next)
    have hmembers := ih (fun m hm => hkeys m (List.mem_cons_of_mem _ hm))
      (fun m hm => h m (List.mem_cons_of_mem _ hm))
    rw [prettyMembers, lex?_mark rfl, lex?_newline, lex?_quote (hkeys _ List.mem_cons_self),
      lex?_mark rfl, lex?_silent rfl, hvalue, hmembers]
    simp only [memberTokens, Option.map_map, Function.comp_def, List.cons_append,
      List.append_assoc]

/-- The text of a tree is cut into the tokens of the tree. -/
theorem Lexical.lexes {j : Json} (h : j.Lexical) : Lexes j := by
  induction h with
  | null => exact fun level next hs => lex?_word rfl (List.all_eq_true.mp rfl) rfl hs
  | bool value =>
    cases value <;> exact fun level next hs => lex?_word rfl (List.all_eq_true.mp rfl) rfl hs
  | number h => exact fun level next hs => lex?_number h hs
  | string h => exact fun level next _ => lex?_quote h next
  | @array items _ ih =>
    intro level next hs
    cases items with
    | nil =>
      rw [prettyAt, lex?_mark rfl, lex?_mark rfl]
      simp only [tokens, Option.map_map, Function.comp_def, List.cons_append, List.nil_append]
    | cons item items =>
      have hitem := ih item List.mem_cons_self (level + 1) _
        (stops_prettyItems (level + 1) level items (0x5d :: next))
      have hitems := lex?_prettyItems (fun i hi => ih i (List.mem_cons_of_mem item hi))
        (level + 1) level (0x5d :: next)
      rw [prettyAt, lex?_mark rfl, lex?_newline, hitem, hitems, lex?_mark rfl]
      simp only [tokens, Option.map_map, Function.comp_def, List.cons_append, List.nil_append,
        List.append_assoc]
  | @object members hkeys _ ih =>
    intro level next hs
    cases members with
    | nil =>
      rw [prettyAt, lex?_mark rfl, lex?_mark rfl]
      simp only [tokens, Option.map_map, Function.comp_def, List.cons_append, List.nil_append]
    | cons m members =>
      obtain ⟨key, value⟩ := m
      have hvalue := ih (key, value) List.mem_cons_self (level + 1) _
        (stops_prettyMembers (level + 1) level members (0x7d :: next))
      have hmembers := lex?_prettyMembers (fun m hm => hkeys m (List.mem_cons_of_mem _ hm))
        (fun m hm => ih m (List.mem_cons_of_mem _ hm)) (level + 1) level (0x7d :: next)
      rw [prettyAt, lex?_mark rfl, lex?_newline, lex?_quote (hkeys _ List.mem_cons_self),
        lex?_mark rfl, lex?_silent rfl, hvalue, hmembers, lex?_mark rfl]
      simp only [tokens, Option.map_map, Function.comp_def, List.cons_append, List.nil_append,
        List.append_assoc]

/-- A value whose tokens are read as it, whatever follows. -/
def Builds (j : Json) : Prop :=
  ∀ outer rest, readTokens? (.value outer) (j.tokens ++ rest) = readTokens? (.done j outer) rest

/-- The items behind those that were read, and the end of the array. -/
theorem readTokens?_itemTokens {items : List Json} (h : ∀ item ∈ items, Builds item)
    (last : Json) (read : List Json) (outer : List Frame) (rest : List Token) :
    readTokens? (.done last (.array read :: outer)) (itemTokens items ++ .closeArray :: rest) =
      readTokens? (.done (.array (read.reverse ++ last :: items)) outer) rest := by
  induction items generalizing last read with
  | nil => rw [← List.reverse_cons]; rfl
  | cons item items ih =>
    have hitem := h item List.mem_cons_self (.array (last :: read) :: outer)
      (itemTokens items ++ .closeArray :: rest)
    have hitems := ih (fun i hi => h i (List.mem_cons_of_mem item hi)) item (last :: read)
    rw [List.reverse_cons, List.append_assoc, List.singleton_append] at hitems
    rw [← hitems, ← hitem, itemTokens, List.cons_append, List.append_assoc]
    rfl

/-- The members behind those that were read, and the end of the object. -/
theorem readTokens?_memberTokens {members : List (Bytes × Json)}
    (h : ∀ m ∈ members, Builds m.2) (key : Bytes) (last : Json) (read : List (Bytes × Json))
    (outer : List Frame) (rest : List Token) :
    readTokens? (.done last (.object read key :: outer))
        (memberTokens members ++ .closeObject :: rest) =
      readTokens? (.done (.object (read.reverse ++ (key, last) :: members)) outer) rest := by
  induction members generalizing key last read with
  | nil => rw [← List.reverse_cons]; rfl
  | cons m members ih =>
    obtain ⟨key', value⟩ := m
    have hvalue := h (key', value) List.mem_cons_self (.object ((key, last) :: read) key' :: outer)
      (memberTokens members ++ .closeObject :: rest)
    have hmembers := ih (fun m hm => h m (List.mem_cons_of_mem _ hm)) key' value
      ((key, last) :: read)
    rw [List.reverse_cons, List.append_assoc, List.singleton_append] at hmembers
    rw [← hmembers, ← hvalue, memberTokens, List.cons_append, List.cons_append, List.cons_append,
      List.append_assoc]
    rfl

/-- No value starts with the end of an array, so the first item is read like any other value. -/
theorem readTokens?_firstItem (j : Json) (outer : List Frame) (rest : List Token) :
    readTokens? (.firstItem outer) (j.tokens ++ rest) =
      readTokens? (.value (.array [] :: outer)) (j.tokens ++ rest) := by
  match j with
  | .null | .bool _ | .number _ | .string _ => rfl
  | .array [] | .array (_ :: _) => rfl
  | .object [] | .object (_ :: _) => rfl

/-- The tokens of a tree are read as the tree. -/
theorem Lexical.builds {j : Json} (h : j.Lexical) : Builds j := by
  induction h with
  | null | bool _ | number _ | string _ => exact fun _ _ => rfl
  | @array items _ ih =>
    intro outer rest
    cases items with
    | nil => rfl
    | cons item items =>
      have hitem := ih item List.mem_cons_self (.array [] :: outer)
        (itemTokens items ++ .closeArray :: rest)
      have hitems := readTokens?_itemTokens (fun i hi => ih i (List.mem_cons_of_mem item hi)) item
        [] outer rest
      have hfirst := readTokens?_firstItem item outer (itemTokens items ++ .closeArray :: rest)
      rw [tokens, List.cons_append, List.append_assoc, List.append_assoc]
      exact (hfirst.trans hitem).trans hitems
  | @object members _ _ ih =>
    intro outer rest
    cases members with
    | nil => rfl
    | cons m members =>
      obtain ⟨key, value⟩ := m
      have hvalue := ih (key, value) List.mem_cons_self (.object [] key :: outer)
        (memberTokens members ++ .closeObject :: rest)
      have hmembers := readTokens?_memberTokens (fun m hm => ih m (List.mem_cons_of_mem _ hm)) key
        value [] outer rest
      rw [tokens, List.cons_append, List.cons_append, List.cons_append, List.append_assoc,
        List.append_assoc]
      exact hvalue.trans hmembers

/-- The indented text of a tree is read as the tree. -/
theorem Lexical.parse?_pretty {j : Json} (h : j.Lexical) : parse? j.pretty = some j := by
  have htokens : tokens? j.pretty = some j.tokens := by
    rw [tokens?, pretty, h.lexes 0 [] stops_nil]
    exact congrArg some (List.append_nil _)
  have hread := h.builds [] []
  rw [List.append_nil] at hread
  rw [parse?, htokens, Option.bind_some, hread]
  rfl

end Trees

end KernelFusion.Json
