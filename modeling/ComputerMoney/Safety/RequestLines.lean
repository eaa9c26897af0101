/-
# Safety.RequestLines -- the lines the seller reads, and the lines it parses

`read_headers` ends a line at a newline, with or without a carriage return, and takes either
kind of blank line for the end of a head; `parse_request` cuts the head only where both
characters stand.  So a line that ends in a newline alone is parsed as one with the next, and
a payment header beside it is lost, or read with what follows it for its value.

What is parsed is the last piece that reads as a payment header, and what was sent is the last
line that does.  They agree when the last piece that could tell them apart is one payment
header with white space around it, or by coincidence (`Told`); `request_lines` says that they
agree nowhere else.
-/
import ComputerMoney.Kernel.Paywall
import ComputerMoney.Theory.LineBreaks

namespace ComputerMoney.Safety

set_option autoImplicit false

open Theory Kernel

namespace RequestLines

/-! ## What a head says -/

/-- The trimmed value of a header whose name is `X-Payment` in any letter case. -/
def payment? (line : List Char) : Option (List Char) :=
  match Text.splitOnce ':' line with
  | some (name, value) =>
      if (Text.trim name).map Text.asciiLower = "x-payment".toList then some (Text.trim value)
      else none
  | none => none

def lastPayment (lines : List (List Char)) : Option (List Char) :=
  (lines.filterMap payment?).getLast?

def Blank (line : List Char) : Prop := line = ['\r', '\n'] ∨ line = ['\n']

/-- The last line read is a blank one. -/
def Complete (raw : List Char) : Prop :=
  ∃ blank, (Text.readLines raw).getLast? = some blank ∧ Blank blank

def requestLine (raw : List Char) : List Char := (Text.lineTexts raw).headD []

/-- The lines between the request line and the blank line. -/
def headerLines (raw : List Char) : List (List Char) := (Text.lineTexts raw).tail.dropLast

/-- The request that the lines of a head make. -/
structure Means (raw : List Char) (request : Request) : Prop where
  method : request.method = Text.firstWord (requestLine raw)
  payment : request.payment = lastPayment (headerLines raw)

/-! ## Where the pieces say the same -/

/-- The lines of a piece that stands between two line ends of both characters. -/
def lines (piece : List Char) : List (List Char) := piece.splitOn '\n'

/-- One payment header, and lines of white space around it. -/
def Alone (piece : List Char) : Prop :=
  ∃ before line after, lines piece = before ++ line :: after ∧ (payment? line).isSome ∧
    (∀ l ∈ before, Text.White l) ∧ ∀ l ∈ after, Text.White l

/-- Going back from the last piece: `joined` are the lines in the piece of the request line. -/
inductive Told (joined : List (List Char)) : List (List Char) → Prop
  /-- No line is a payment header. -/
  | silent (none_ : lastPayment joined = none) : Told joined []
  /-- A piece that holds no payment header, and does not read as one. -/
  | mute {pieces : List (List Char)} {piece : List Char} (unread : payment? piece = none)
      (none_ : lastPayment (lines piece) = none) (before : Told joined pieces) :
      Told joined (pieces ++ [piece])
  /-- The last payment header stands alone in its piece. -/
  | alone {pieces : List (List Char)} {piece : List Char} (alone : Alone piece) :
      Told joined (pieces ++ [piece])
  /-- A lost payment header with the value that was read before. -/
  | lost {pieces : List (List Char)} {piece value : List Char} (unread : payment? piece = none)
      (last : lastPayment (lines piece) = some value)
      (same : lastPayment pieces = some value) : Told joined (pieces ++ [piece])
  /-- Lines that only together read as a payment header, with the value of the last header. -/
  | made {pieces : List (List Char)} {piece value : List Char}
      (read : payment? piece = some value) (none_ : lastPayment (lines piece) = none)
      (same : lastPayment (joined ++ pieces.flatMap lines) = some value) :
      Told joined (pieces ++ [piece])

/-- The head cut at CRLF: the first word is on the request line, or on no line of its piece; and
the pieces after it tell the payment. -/
def CutsRight (raw : List Char) : Prop :=
  ∀ first pieces request joined, Text.splitCrlf raw = first :: pieces →
    lines first = request :: joined →
    (Text.White request → ∀ l ∈ joined, Text.White l) ∧ Told joined pieces

/-! ## One piece -/

theorem payment?_eq_some {line value : List Char} :
    payment? line = some value ↔ ∃ name rest, line = name ++ ':' :: rest ∧ ':' ∉ name ∧
      (Text.trim name).map Text.asciiLower = "x-payment".toList ∧ Text.trim rest = value := by
  unfold payment?
  cases split : Text.splitOnce ':' line with
  | none =>
      refine iff_of_false nofun fun ⟨name, rest, is, _⟩ => Text.splitOnce_eq_none.1 split ?_
      simp [is]
  | some parts =>
      obtain ⟨name, rest⟩ := parts
      obtain ⟨is, absent⟩ := Text.splitOnce_eq_some.1 split
      dsimp only
      constructor
      · intro found
        by_cases named : (Text.trim name).map Text.asciiLower = "x-payment".toList
        · rw [if_pos named] at found
          exact ⟨name, rest, is, absent, named, Option.some.inj found⟩
        · rw [if_neg named] at found
          cases found
      · intro ⟨name', rest', is', absent', named, value_⟩
        have same := Text.splitOnce_eq_some.2 ⟨is', absent'⟩
        rw [split] at same
        cases same
        rw [if_pos named, value_]

theorem colon_visible : Text.isWhitespace ':' = false := by decide

/-- A payment header has a colon. -/
theorem payment?_eq_none {line : List Char} (absent : ':' ∉ line) : payment? line = none := by
  rw [payment?, Text.splitOnce_eq_none.2 absent]

theorem payment?_white {line : List Char} (white : Text.White line) : payment? line = none := by
  apply payment?_eq_none
  intro member
  have visible := colon_visible
  rw [white ':' member] at visible
  cases visible

theorem lastPayment_append (xs ys : List (List Char)) :
    lastPayment (xs ++ ys) = (lastPayment ys).or (lastPayment xs) := by
  rw [lastPayment, List.filterMap_append, List.getLast?_append, lastPayment, lastPayment]

theorem lastPayment_singleton (line : List Char) : lastPayment [line] = payment? line := by
  rw [lastPayment]
  cases is : payment? line <;> simp [is]

theorem lastPayment_cons (piece : List Char) (pieces : List (List Char)) :
    lastPayment (piece :: pieces) = (lastPayment pieces).or (payment? piece) := by
  rw [← List.singleton_append, lastPayment_append, lastPayment_singleton]

theorem lastPayment_eq_none {xs : List (List Char)} (none_ : ∀ l ∈ xs, payment? l = none) :
    lastPayment xs = none := by
  rw [lastPayment, List.filterMap_eq_nil_iff.2 none_]
  rfl

/-- The last payment header among some lines. -/
theorem exists_last {xs : List (List Char)} {value : List Char}
    (last : lastPayment xs = some value) :
    ∃ before line after, xs = before ++ line :: after ∧ payment? line = some value := by
  obtain ⟨line, member, is⟩ := List.mem_filterMap.1 (List.mem_of_getLast? last)
  obtain ⟨before, after, split⟩ := List.append_of_mem member
  exact ⟨before, line, after, split, is⟩

theorem joined_lines (piece : List Char) : List.intercalate ['\n'] (lines piece) = piece :=
  List.intercalate_splitOn '\n'

/-- A payment header that stands alone is what its piece reads as. -/
theorem Alone.payment {piece : List Char} (alone : Alone piece) :
    ∃ value, payment? piece = some value ∧ lastPayment (lines piece) = some value := by
  obtain ⟨before, line, after, split, some_, whiteBefore, whiteAfter⟩ := alone
  obtain ⟨value, is⟩ := Option.isSome_iff_exists.1 some_
  obtain ⟨name, rest, line_, absent, named, trimmed⟩ := payment?_eq_some.1 is
  obtain ⟨front, back, around, whiteFront, whiteBack⟩ := Text.intercalate_around before line after
  rw [← split, joined_lines] at around
  have whiteFront' := whiteFront.2 whiteBefore
  have whiteBack' := whiteBack.2 whiteAfter
  refine ⟨value, payment?_eq_some.2 ⟨front ++ name, rest ++ back, ?_, ?_, ?_, ?_⟩, ?_⟩
  · rw [around, line_]
    simp
  · have hidden : ':' ∉ front := fun member => by
      have white := whiteFront' ':' member
      rw [colon_visible] at white
      cases white
    exact fun member => (List.mem_append.1 member).elim hidden absent
  · rw [Text.trim_white_append whiteFront', named]
  · rw [Text.trim_append_white whiteBack', trimmed]
  · have none_before := lastPayment_eq_none fun l member => payment?_white (whiteBefore l member)
    have none_after := lastPayment_eq_none fun l member => payment?_white (whiteAfter l member)
    rw [split, lastPayment_append, lastPayment_cons, none_after, is]
    rfl

/-- Names of one length before the lines of a piece. -/
theorem white_of_named {front name : List Char}
    (whole : (Text.trim (front ++ name)).map Text.asciiLower = "x-payment".toList)
    (part : (Text.trim name).map Text.asciiLower = "x-payment".toList) : Text.White front := by
  have length : (Text.solid (front ++ name)).length = (Text.solid name).length := by
    rw [← Text.solid_trim (front ++ name), ← Text.solid_trim name, ← Text.length_solid_lower,
      ← Text.length_solid_lower (Text.trim name), whole, part]
  rw [Text.solid_append, List.length_append] at length
  exact Text.white_iff.2 (List.eq_nil_of_length_eq_zero (by omega))

theorem white_of_trimmed {rest back : List Char}
    (same : Text.trim (rest ++ back) = Text.trim rest) : Text.White back := by
  have length : (Text.solid (rest ++ back)).length = (Text.solid rest).length := by
    rw [← Text.solid_trim, same, Text.solid_trim]
  rw [Text.solid_append, List.length_append] at length
  exact Text.white_iff.2 (List.eq_nil_of_length_eq_zero (by omega))

/-- **A piece with the value of one of its lines is that line, alone.**  If the line is not the
first with a colon, its own colon is part of the value that is read. -/
theorem alone_of_same {piece value : List Char} (read : payment? piece = some value)
    (last : lastPayment (lines piece) = some value) : Alone piece := by
  obtain ⟨before, line, after, split, is⟩ := exists_last last
  obtain ⟨name, rest, line_, absent, named, trimmed⟩ := payment?_eq_some.1 is
  obtain ⟨name', rest', piece_, absent', named', trimmed'⟩ := payment?_eq_some.1 read
  obtain ⟨front, back, around, whiteFront, whiteBack⟩ := Text.intercalate_around before line after
  rw [← split, joined_lines, line_] at around
  have cut : front ++ name ++ ':' :: (rest ++ back) = name' ++ ':' :: rest' := by
    rw [← piece_, around]
    simp
  by_cases early : ':' ∈ front
  · -- The piece is cut in what stands before the line.
    exfalso
    obtain ⟨start, more, rfl, absent''⟩ := List.eq_append_cons_of_mem early
    have parts : start ++ ':' :: (more ++ name ++ ':' :: (rest ++ back)) = name' ++ ':' :: rest' := by
      rw [← cut]
      simp
    have same := Text.splitOnce_eq_some.2 ⟨parts.symm, absent''⟩
    rw [Text.splitOnce_eq_some.2 ⟨rfl, absent'⟩] at same
    cases same
    have colons := Text.count_trim colon_visible (more ++ name ++ ':' :: (rest ++ back))
    rw [trimmed', ← trimmed, Text.count_trim colon_visible] at colons
    simp only [List.count_append, List.count_cons_self] at colons
    omega
  · have absent'' : ':' ∉ front ++ name := fun member =>
      (List.mem_append.1 member).elim early absent
    have same := Text.splitOnce_eq_some.2 ⟨cut.symm, absent''⟩
    rw [Text.splitOnce_eq_some.2 ⟨rfl, absent'⟩] at same
    cases same
    have white := whiteFront.1 (white_of_named named' named)
    have white' := whiteBack.1 (white_of_trimmed (trimmed'.trans trimmed.symm))
    exact ⟨before, line, after, split, Option.isSome_of_eq_some is, white, white'⟩

/-! ## All pieces -/

/-- **The last piece that reads as a payment and the last line that does have one value exactly
where the pieces tell it.** -/
theorem told_iff {joined pieces : List (List Char)} :
    Told joined pieces ↔ lastPayment pieces = lastPayment (joined ++ pieces.flatMap lines) := by
  have step : ∀ (pieces : List (List Char)) (piece : List Char),
      lastPayment (pieces ++ [piece]) = (payment? piece).or (lastPayment pieces) ∧
      lastPayment (joined ++ (pieces ++ [piece]).flatMap lines) =
        (lastPayment (lines piece)).or (lastPayment (joined ++ pieces.flatMap lines)) := by
    intro pieces piece
    refine ⟨by rw [lastPayment_append, lastPayment_singleton], ?_⟩
    rw [List.flatMap_append, List.flatMap_singleton, ← List.append_assoc, lastPayment_append]
  constructor
  · intro told
    induction told with
    | silent none_ => rw [List.flatMap_nil, List.append_nil, none_]; rfl
    | mute unread none_ _ ih => rw [(step _ _).1, (step _ _).2, unread, none_, ih]
    | alone alone =>
        obtain ⟨value, read, last⟩ := alone.payment
        rw [(step _ _).1, (step _ _).2, read, last]
        rfl
    | lost unread last same => rw [(step _ _).1, (step _ _).2, unread, last, same]; rfl
    | made read none_ same => rw [(step _ _).1, (step _ _).2, read, none_, same]; rfl
  · intro agree
    induction pieces using List.reverseRecOn with
    | nil =>
        rw [List.flatMap_nil, List.append_nil] at agree
        exact .silent agree.symm
    | append_singleton pieces piece ih =>
        rw [(step _ _).1, (step _ _).2] at agree
        cases read : payment? piece with
        | none =>
            cases last : lastPayment (lines piece) with
            | none =>
                rw [read, last] at agree
                exact .mute read last (ih agree)
            | some value =>
                rw [read, last] at agree
                exact .lost read last agree
        | some value =>
            cases last : lastPayment (lines piece) with
            | none =>
                rw [read, last] at agree
                exact .made read last agree.symm
            | some value' =>
                rw [read, last] at agree
                cases agree
                exact .alone (alone_of_same read last)

/-- Where every newline follows a carriage return, every piece is a line, and tells itself. -/
theorem cutsRight_of_crlf {raw : List Char}
    (plain : ∀ piece ∈ Text.splitCrlf raw, '\n' ∉ piece) : CutsRight raw := by
  intro first pieces request joined cut split
  rw [cut] at plain
  have own : ∀ piece ∈ first :: pieces, lines piece = [piece] := fun piece member =>
    List.splitOn_eq_singleton (plain piece member)
  rw [own first (List.mem_cons_self ..)] at split
  obtain ⟨-, rfl⟩ := List.cons.inj split
  refine ⟨fun _ => nofun, told_iff.2 ?_⟩
  have same : pieces.flatMap lines = pieces.flatMap fun piece => [piece] :=
    List.flatMap_congr fun piece member => own piece (List.mem_cons_of_mem _ member)
  rw [List.nil_append, same, List.flatMap_singleton']

/-! ## What the parser makes of the pieces -/

/-- The pieces before the first empty one. -/
def untilEmpty (pieces : List (List Char)) : List (List Char) :=
  pieces.takeWhile fun piece => !piece.isEmpty

theorem untilEmpty_cons {piece : List Char} (filled : piece ≠ []) (pieces : List (List Char)) :
    untilEmpty (piece :: pieces) = piece :: untilEmpty pieces :=
  List.takeWhile_cons_of_pos (by simpa using filled)

theorem parseHeaders_eq (pieces : List (List Char)) (payment : Option (List Char)) :
    parseHeaders pieces payment = (lastPayment (untilEmpty pieces)).or payment := by
  fun_induction parseHeaders pieces payment with
  | case1 => rfl
  | case2 => rfl
  | case3 piece pieces payment filled name value split named ih =>
      have is : payment? piece = some (Text.trim value) := by
        rw [payment?, split]
        exact if_pos named
      rw [ih, untilEmpty_cons filled, lastPayment_cons, is, Option.or_assoc]
      rfl
  | case4 piece pieces payment filled name value split other ih =>
      have is : payment? piece = none := by
        rw [payment?, split]
        exact if_neg other
      rw [ih, untilEmpty_cons filled, lastPayment_cons, is, Option.or_none]
  | case5 piece pieces payment filled split ih =>
      have is : payment? piece = none := by rw [payment?, split]
      rw [ih, untilEmpty_cons filled, lastPayment_cons, is, Option.or_none]

/-- Nothing is missed after an empty piece that only silent pieces follow. -/
theorem parseHeaders_silent {pieces : List (List Char)}
    (silent : ∀ front back, pieces = front ++ [] :: back → lastPayment back = none) :
    parseHeaders pieces none = lastPayment pieces := by
  rw [parseHeaders_eq, Option.or_none]
  induction pieces with
  | nil => rfl
  | cons piece pieces ih =>
      by_cases filled : piece = []
      · subst filled
        have nothing : untilEmpty ([] :: pieces) = [] := rfl
        rw [nothing, lastPayment_cons, silent [] pieces rfl, payment?_white Text.white_nil]
        rfl
      · rw [untilEmpty_cons filled, lastPayment_cons, lastPayment_cons, ih]
        intro front back is
        exact silent (piece :: front) back (by rw [is]; rfl)

/-! ## Complete heads -/

/-- What is read are the first lines of the stream, of which only the last may be blank. -/
theorem readHead_taken (lines : List (List Char)) (raw : List Char) :
    ∃ taken, taken <+: lines ∧ readHead raw lines = raw ++ taken.flatten ∧
      ∀ line ∈ taken.dropLast, ¬ Blank line := by
  induction lines generalizing raw with
  | nil => exact ⟨[], List.nil_prefix, by rw [readHead]; simp, nofun⟩
  | cons line lines ih =>
      have one : [line] <+: line :: lines := List.cons_prefix_cons.2 ⟨rfl, List.nil_prefix⟩
      rw [readHead]
      by_cases blank : line = ['\r', '\n'] ∨ line = ['\n']
      · rw [if_pos blank]
        exact ⟨[line], one, by simp, nofun⟩
      rw [if_neg blank]
      by_cases large : Text.byteLength (raw ++ line) > 8192
      · rw [if_pos large]
        exact ⟨[line], one, by simp, nofun⟩
      · rw [if_neg large]
        obtain ⟨taken, begins, is, filled⟩ := ih (raw ++ line)
        refine ⟨line :: taken, List.cons_prefix_cons.2 ⟨rfl, begins⟩, ?_, ?_⟩
        · rw [is, List.flatten_cons, List.append_assoc]
        · cases taken with
          | nil => exact nofun
          | cons next taken =>
              rw [List.dropLast_cons_cons]
              intro l member
              rcases List.mem_cons.1 member with rfl | member
              · exact blank
              · exact filled l member

/-- A complete head is lines that are not blank, and a blank one. -/
theorem lines_of_complete {stream : List Char} (complete : Complete (readHeaders stream)) :
    ∃ front blank, Text.readLines (readHeaders stream) = front ++ [blank] ∧ Blank blank ∧
      ∀ line ∈ front, ¬ Blank line := by
  obtain ⟨taken, begins, is, filled⟩ := readHead_taken (Text.readLines stream) []
  rw [List.nil_append, ← readHeaders] at is
  obtain ⟨blank, last, isBlank⟩ := complete
  rw [is, Text.readLines_flatten begins] at last ⊢
  obtain ⟨front, rfl⟩ := List.getLast?_eq_some_iff.1 last
  rw [List.dropLast_concat] at filled
  exact ⟨front, blank, rfl, isBlank, filled⟩

section

variable {raw : List Char} {front : List (List Char)} {blank : List Char}

theorem whole_of_blank (split : Text.readLines raw = front ++ [blank]) (isBlank : Blank blank) :
    Text.Whole raw := by
  right
  rw [← Text.flatten_readLines raw, split, List.flatten_append, List.flatten_singleton,
    List.getLast?_append]
  rcases isBlank with rfl | rfl <;> rfl

/-- What the lines of a complete head say: something each, and nothing. -/
theorem lineTexts_of_blank (split : Text.readLines raw = front ++ [blank])
    (isBlank : Blank blank) (filled : ∀ line ∈ front, ¬ Blank line) :
    ∃ texts : List (List Char), Text.lineTexts raw = texts ++ [[]] ∧ [] ∉ texts := by
  have ended := Text.readLines_ended (whole_of_blank split isBlank)
  rw [split] at ended
  refine ⟨front.map Text.stripEnd, ?_, ?_⟩
  · have last := ended blank (List.mem_append_right _ (List.mem_singleton_self blank))
    rw [Text.lineTexts, split, List.map_append, List.map_singleton,
      (Text.stripEnd_eq_nil last).2 isBlank]
  · intro member
    obtain ⟨line, inFront, is⟩ := List.mem_map.1 member
    have last := ended line (List.mem_append_left _ inFront)
    exact filled line inFront ((Text.stripEnd_eq_nil last).1 is)

/-- Only empty lines follow the first empty one of two that end a list. -/
theorem empty_after {texts before after : List (List Char)} (filled : [] ∉ texts)
    (split : texts ++ [[], []] = before ++ [] :: after) : ∀ line ∈ after, line = [] := by
  rcases List.append_eq_append_iff.1 split with ⟨more, -, is⟩ | ⟨more, is, rest⟩
  · have suffix : [] :: after <:+ [[], []] := ⟨more, is.symm⟩
    intro line member
    have among := suffix.mem (List.mem_cons_of_mem _ member)
    simpa using among
  · cases more with
    | nil =>
        have is' : after = [[]] := (List.cons.inj rest).2
        simp [is']
    | cons l more =>
        have first : l = [] := (List.cons.inj rest).1.symm
        exact absurd (by rw [is, first]; simp) filled

/-- In a complete head no payment follows an empty piece. -/
theorem silent_after_empty {texts pieces : List (List Char)} {first : List Char}
    (said : Text.lineTexts raw = texts ++ [[]]) (filled : [] ∉ texts) (whole : Text.Whole raw)
    (cut : Text.splitCrlf raw = first :: pieces) :
    ∀ front back, pieces = front ++ [] :: back → lastPayment back = none := by
  intro front back is
  have all : texts ++ [[], []] =
      (first :: front).flatMap lines ++ [] :: back.flatMap lines := by
    have same : Text.lineTexts raw ++ [[]] = (Text.splitCrlf raw).flatMap lines :=
      Text.lineTexts_append_nil whole
    have nothing : lines [] = [[]] := rfl
    rw [said, cut, is] at same
    simpa [nothing] using same
  have empty := empty_after filled all
  refine lastPayment_eq_none fun piece member => payment?_white ?_
  rw [← joined_lines piece, Text.white_intercalate]
  intro line inside
  rw [empty line (List.mem_flatMap.2 ⟨piece, member, inside⟩)]
  exact Text.white_nil

end

/-- The first word of a piece is on its first line, or on none. -/
theorem firstWord_piece {piece request : List Char} {joined : List (List Char)}
    (split : lines piece = request :: joined) :
    Text.firstWord piece = Text.firstWord request ↔
      (Text.White request → ∀ l ∈ joined, Text.White l) := by
  rw [← joined_lines piece, split, ← Text.white_intercalate]
  cases joined with
  | nil =>
      rw [List.intercalate_singleton, List.intercalate_nil]
      exact iff_of_true rfl fun _ => Text.white_nil
  | cons next joined =>
      rw [List.intercalate_cons_cons, List.append_assoc, List.singleton_append]
      exact Text.firstWord_append_iff Text.white_newline

end RequestLines

open RequestLines

/-- **The parser reads what the head says exactly where the head cuts right.**  For every stream
whose head ends with a blank line. -/
theorem request_lines (stream : List Char) (complete : Complete (readHeaders stream)) :
    Means (readHeaders stream) (parseRequest (readHeaders stream)) ↔
      CutsRight (readHeaders stream) := by
  obtain ⟨front, blank, split, isBlank, filled⟩ := lines_of_complete complete
  generalize readHeaders stream = raw at *
  have whole := whole_of_blank split isBlank
  obtain ⟨texts, said, filled⟩ := lineTexts_of_blank split isBlank filled
  obtain ⟨first, pieces, cut⟩ := List.exists_cons_of_ne_nil (Text.splitCrlf_ne_nil raw)
  obtain ⟨request, joined, cut'⟩ : ∃ request joined, lines first = request :: joined :=
    List.exists_cons_of_ne_nil (List.splitOn_ne_nil '\n' first)
  have parsed : parseRequest raw = ⟨Text.firstWord first, lastPayment pieces⟩ := by
    rw [parseRequest, cut, ← parseHeaders_silent (silent_after_empty said filled whole cut)]
  have all : texts ++ [[]] ++ [[]] = request :: (joined ++ pieces.flatMap lines) := by
    rw [← said, Text.lineTexts_append_nil whole, cut, List.flatMap_cons, ← lines, cut']
    rfl
  have meant : requestLine raw = request ∧
      lastPayment (headerLines raw) = lastPayment (joined ++ pieces.flatMap lines) := by
    rw [requestLine, headerLines, said]
    have silent : payment? [] = none := payment?_white Text.white_nil
    cases texts with
    | nil =>
        obtain ⟨is, rest⟩ := List.cons.inj all
        rw [← rest]
        exact ⟨is, rfl⟩
    | cons text texts =>
        obtain ⟨is, rest⟩ := List.cons.inj all
        have rest' : texts ++ [[]] ++ [[]] = joined ++ pieces.flatMap lines := rest
        rw [← rest', lastPayment_append, lastPayment_append, lastPayment_singleton, silent]
        exact ⟨is, by simp⟩
  have cuts : CutsRight raw ↔
      (Text.White request → ∀ l ∈ joined, Text.White l) ∧ Told joined pieces := by
    constructor
    · intro right
      exact right first pieces request joined cut cut'
    · intro right first' pieces' request' joined' is is'
      rw [cut] at is
      cases is
      rw [cut'] at is'
      cases is'
      exact right
  rw [cuts, ← firstWord_piece cut', told_iff, ← meant.2, ← meant.1, parsed]
  exact ⟨fun means => ⟨means.method, means.payment⟩, fun right => ⟨right.1, right.2⟩⟩

/-! ## Both line ends, and newlines alone -/

namespace RequestLines

/-- One line ends in a newline alone, and is not the payment header. -/
def mixedHead : List Char :=
  "GET / HTTP/1.1\r\nHost: x\nAccept: y\r\nx-payment:  abc \r\n\r\n".toList

/-- Every line ends in a newline alone. -/
def newlineHead : List Char := "GET / HTTP/1.1\nX-Payment: abc\n\n".toList

instance (line : List Char) : Decidable (Blank line) := by
  unfold Blank
  infer_instance

theorem complete_mixedHead : Complete (readHeaders mixedHead) := ⟨['\r', '\n'], by decide +kernel⟩

end RequestLines

theorem request_lines_mixed : CutsRight (readHeaders mixedHead) :=
  (request_lines mixedHead complete_mixedHead).1 ⟨by decide +kernel, by decide +kernel⟩

/-- The reader takes the head for complete, and the parser finds no payment in it. -/
theorem newline_payment_lost :
    Complete (readHeaders newlineHead) ∧
      (parseRequest (readHeaders newlineHead)).payment = none ∧
      lastPayment (headerLines (readHeaders newlineHead)) = some "abc".toList ∧
      ¬ Means (readHeaders newlineHead) (parseRequest (readHeaders newlineHead)) := by
  have parsed : (parseRequest (readHeaders newlineHead)).payment = none := by decide +kernel
  have said : lastPayment (headerLines (readHeaders newlineHead)) = some "abc".toList := by
    decide +kernel
  refine ⟨⟨['\n'], by decide +kernel⟩, parsed, said, fun means => ?_⟩
  have same := means.payment
  rw [parsed, said] at same
  cases same

end ComputerMoney.Safety
