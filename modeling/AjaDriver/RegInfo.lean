/-
# The description of the registers

`registers.pl` reads `registers.info` line by line: a header, the pretty name,
and for a list or a range what follows. Where it waits for a header it passes
over every line that is none, and the settings below a register whose type has
no settings are such lines. A register declared again, or a key of a list given
again, takes the place of the first. A text it has no error for is recorded line
by line exactly when it is made of blocks, with no register declared twice and
no key given twice in a list (`recorded_iff_blocks`).

What the text is made of is said by `Blocks`, a grammar of lines; the parser
follows it whatever the text, one production a line (`parseLine_does`). What it
has stored is looked at by what a line stands for, a part of a register
(`RegParser.Entry`), and a line that is read writes one part or none.
-/
import AjaDriver.Fields
import Mathlib.Data.List.TakeWhile

namespace AjaDriver

/-! ### Perl -/

/-- The characters `\s` stands for. -/
def perlSpace (c : Char) : Bool := c.toNat = 32 ∨ 9 ≤ c.toNat ∧ c.toNat ≤ 13

/-- The lines of a file, chomped. A newline at the end starts no line. -/
def perlLines : List Char → List (List Char)
  | [] => []
  | c :: s =>
    if c = '\n' then [] :: perlLines s
    else
      match perlLines s with
      | [] => [[c]]
      | l :: ls => (c :: l) :: ls

/-- The words from `s` on: `n` of them, and what is left as one more. With a
limit, what is left counts even when it is empty, unless no word came before. -/
def splitRest : ℕ → Bool → List Char → List String
  | n + 1, any, s =>
    match s.dropWhile (! perlSpace ·) with
    | _ :: rest =>
      String.ofList (s.takeWhile (! perlSpace ·)) :: splitRest n true (rest.dropWhile perlSpace)
    | [] => if s ≠ [] ∨ any = true then [String.ofList s] else []
  | 0, any, s => if s ≠ [] ∨ any = true then [String.ofList s] else []

/-- `split(' ')`, assigned to `limit - 1` variables. -/
def perlSplit (limit : ℕ) (s : List Char) : List String :=
  splitRest (limit - 1) false (s.dropWhile perlSpace)

example : perlSplit 3 "input2 \t\t3".toList = ["input2", "3"] := by decide +kernel

/-- The result of `$rw =~ /c/`, as it is stored. -/
def perlMatch (rw : String) (c : Char) : String := if c ∈ rw.toList then "1" else "0"

/-! ### The table -/

/-- `isValidType`. -/
def isValidType (type : String) : Bool :=
  type = "list" ∨ type = "toggle" ∨ type = "value" ∨ type = "range"

/-- The keys of `$registers{$name}`. -/
inductive RegField
  | cardreg
  | start
  | stop
  | readable
  | writable
  | stateful
  | type
  | pname
  | key (kname : String)
  | rangeMin
  | rangeMax
  deriving DecidableEq

/-- What a line says of a register. -/
inductive RegPart
  | header
  | pname
  | setting (kname : String)
  | range
  deriving DecidableEq

def RegField.part : RegField → RegPart
  | cardreg | start | stop | readable | writable | stateful | type => .header
  | pname => .pname
  | key kname => .setting kname
  | rangeMin | rangeMax => .range

/-- A value in `%registers`, with the number of the line it is from. -/
structure RegStore where
  line : ℕ
  name : String
  field : RegField
  value : String
  deriving DecidableEq

/-- The state of the parse loop; `registers` is the hash, with one value for
each name and field that have one. -/
structure RegParser where
  level : ℕ
  line : ℕ
  regname : String
  regtype : String
  registers : List RegStore

/-! ### The parse loop -/

namespace RegParser

/-- `$registers{$name}{..} = ..`, in the place of the value that was there. -/
def store (p : RegParser) (name : String) (field : RegField) (value : String) : RegParser :=
  { p with
    registers := p.registers.filter (fun st => ¬ (st.name = name ∧ st.field = field)) ++
      [⟨p.line, name, field, value⟩] }

/-- `$registers{$name}{..}`, the empty string where there is none. -/
def value (p : RegParser) (name : String) (field : RegField) : String :=
  match p.registers.find? (fun st => st.name = name ∧ st.field = field) with
  | some st => st.value
  | none => ""

/-- The block of the register `name` that `writeHeader` takes from the table. -/
def block (p : RegParser) (name : String) : RegBlock where
  name := name
  cardreg := perlNumber (p.value name .cardreg)
  start := perlNumber (p.value name .start)
  stop := perlNumber (p.value name .stop)

/-- `case 0`: the start of a register declaration. -/
def parseHeader (p : RegParser) (l : List Char) : Except String RegParser :=
  if l.head? = some '@' then
    match perlSplit 8 l with
    | [_, name, cardreg, start, stop, rw, type] =>
      if !isValidType type
        then .error ("Invalid type '" ++ type ++ "' on line " ++ toString p.line ++ "\n")
      else
        let p := { p with regname := name, regtype := type }
        let p := p.store name .cardreg cardreg
        let p := p.store name .start start
        let p := p.store name .stop stop
        let p := p.store name .readable (perlMatch rw 'r')
        let p := p.store name .writable (perlMatch rw 'w')
        let p := p.store name .stateful (perlMatch rw 's')
        let p := p.store name .type type
        .ok { p with level := p.level + 1 }
    | _ => .error ("Syntax error on line " ++ toString p.line ++ "\n")
  else .ok p

/-- `case 1`: the pretty name. -/
def parseName (p : RegParser) (l : List Char) : RegParser :=
  let p := p.store p.regname .pname (String.ofList l)
  if p.regtype = "toggle" ∨ p.regtype = "value" then { p with level := 0 }
    else { p with level := p.level + 1 }

/-- `case 2`: list items and ranges. -/
def parseItem (p : RegParser) (l : List Char) : Except String RegParser :=
  if p.regtype = "list" then
    if l = [] then .ok { p with level := 0 }
    else
      match perlSplit 3 l with
      | [kname, kval] => .ok (p.store p.regname (.key kname) kval)
      | _ => .error ("Error with list item on line " ++ toString p.line ++ "\n")
  else if p.regtype = "range" then
    match perlSplit 3 l with
    | [rmin, rmax] =>
      let p := p.store p.regname .rangeMin rmin
      let p := p.store p.regname .rangeMax rmax
      .ok { p with level := 0 }
    | _ => .error ("Error with range values on line " ++ toString p.line ++ "\n")
  else .ok p

/-- One round of the loop. -/
def parseLine (p : RegParser) (l : List Char) : Except String RegParser :=
  let p := { p with line := p.line + 1 }
  if l.head? = some '#' then .ok p
  else
    match p.level with
    | 0 => p.parseHeader l
    | 1 => .ok (p.parseName l)
    | 2 => p.parseItem l
    | _ => .ok p

/-- The loop, which an error ends. -/
def parseLoop (p : RegParser) : List (List Char) → Except String RegParser
  | [] => .ok p
  | l :: ls =>
    match p.parseLine l with
    | .error e => .error e
    | .ok p => p.parseLoop ls

/-- The parser before the first line. -/
def start : RegParser := ⟨0, 0, "", "", []⟩

/-- `registers.pl`, up to the end of the loop. -/
def parse (text : String) : Except String RegParser := start.parseLoop (perlLines text.toList)

end RegParser


variable {p p' : RegParser} {l : List Char}

/-! ### The table -/

/-- The value of this field of the register is from line `i`. -/
def RegParser.Slot (p : RegParser) (i : ℕ) (name : String) (field : RegField) : Prop :=
  ∃ st ∈ p.registers, st.line = i ∧ st.name = name ∧ st.field = field

/-- Line `i` stands in the table as this part of the register. -/
def RegParser.Entry (p : RegParser) (i : ℕ) (name : String) (part : RegPart) : Prop :=
  ∃ st ∈ p.registers, st.line = i ∧ st.name = name ∧ st.field.part = part

/-- The line with the number `i` is recorded: it stands in the table, for one
register and as one of the things it is described by. -/
def RegParser.Recorded (p : RegParser) (i : ℕ) : Prop :=
  ∃ name part, (∃ st ∈ p.registers, st.line = i) ∧
    ∀ st ∈ p.registers, st.line = i → st.name = name ∧ st.field.part = part

theorem mem_store {name : String} {field : RegField} {value : String} {st : RegStore} :
    st ∈ (p.store name field value).registers ↔
      (st ∈ p.registers ∧ ¬ (st.name = name ∧ st.field = field)) ∨
      st = ⟨p.line, name, field, value⟩ := by
  simp only [RegParser.store, List.mem_append, List.mem_filter, List.mem_singleton,
    decide_eq_true_eq]

theorem slot_store {name n : String} {field f : RegField} {value : String} {i : ℕ} :
    (p.store name field value).Slot i n f ↔ if n = name ∧ f = field then i = p.line
      else p.Slot i n f := by
  unfold RegParser.Slot
  simp only [mem_store]
  by_cases hslot : n = name ∧ f = field
  · rw [if_pos hslot]
    constructor
    · rintro ⟨st, ⟨-, hother⟩ | rfl, rfl, rfl, rfl⟩
      · exact absurd hslot hother
      · rfl
    · rintro rfl
      exact ⟨_, .inr rfl, rfl, hslot.1.symm, hslot.2.symm⟩
  · rw [if_neg hslot]
    constructor
    · rintro ⟨st, ⟨hst, -⟩ | rfl, hline, hname, hfield⟩
      · exact ⟨st, hst, hline, hname, hfield⟩
      · exact absurd ⟨hname.symm, hfield.symm⟩ hslot
    · rintro ⟨st, hst, hline, hname, hfield⟩
      exact ⟨st, .inl ⟨hst, by rwa [hname, hfield]⟩, hline, hname, hfield⟩

theorem value_store (name n : String) (field f : RegField) (value : String) :
    (p.store name field value).value n f = if n = name ∧ f = field then value else p.value n f := by
  unfold RegParser.value RegParser.store
  simp only [List.find?_append, List.find?_filter, decide_eq_true_eq]
  by_cases hslot : n = name ∧ f = field
  · obtain ⟨rfl, rfl⟩ := hslot
    rw [if_pos ⟨rfl, rfl⟩, List.find?_eq_none.mpr]
    · simp
    · intro st _ h
      obtain ⟨hno, hst⟩ := of_decide_eq_true h
      exact hno hst
  · have hsame :
      (fun st : RegStore => decide (¬ (st.name = name ∧ st.field = field) ∧ st.name = n ∧
        st.field = f)) =
          fun st => decide (st.name = n ∧ st.field = f) := by
      funext st
      by_cases hst : st.name = n ∧ st.field = f
      · rw [decide_eq_true hst, decide_eq_true ⟨by rwa [hst.1, hst.2], hst⟩]
      · rw [decide_eq_false hst, decide_eq_false fun h => hst h.2]
    have hlast : ¬ decide (name = n ∧ field = f) = true := by
      intro h
      obtain ⟨rfl, rfl⟩ := of_decide_eq_true h
      exact hslot ⟨rfl, rfl⟩
    rw [if_neg hslot, hsame, List.find?_singleton, if_neg hlast, Option.or_none]

/-- A header that is read is the block that `writeHeader` takes from the table. -/
theorem block_parseHeader {ul name cardreg start stop rw type : String}
    (hsplit : perlSplit 8 l = [ul, name, cardreg, start, stop, rw, type]) (hat : l.head? = some '@')
    (h : p.parseHeader l = .ok p') :
    p'.block name = ⟨name, perlNumber cardreg, perlNumber start, perlNumber stop⟩ := by
  unfold RegParser.parseHeader at h
  rw [if_pos hat, hsplit] at h
  simp only at h
  split_ifs at h
  obtain rfl := Except.ok.inj h
  have hvalue : ∀ (q : RegParser) (n : ℕ)
    (f : RegField), RegParser.value { q with level := n } name f = q.value name f :=
    fun _ _ _ => rfl
  simp only [RegParser.block, hvalue, value_store, reduceCtorEq, and_false, and_self,
    if_false, if_true]

example : (RegParser.parse "@ regclocking 0 20 21 rws list\nRegister Clocking\n").toOption.map
    (fun p => (p.block "regclocking").emit) = some regclocking := by
  decide +kernel

/-- The values of a list, stored one after the other. -/
def RegParser.stores (p : RegParser) (name : String) (fields : List (RegField × String)) :
    RegParser :=
  fields.foldl (fun p fv => p.store name fv.1 fv.2) p

theorem slot_stores {name n : String} {f : RegField} {i : ℕ} : ∀ (fields : List (RegField × String))
    (p : RegParser),
    (p.stores name fields).Slot i n f ↔ if n = name ∧ f ∈ fields.map Prod.fst then i = p.line
      else p.Slot i n f
  | [], p => by simp [RegParser.stores]
  | fv :: fields, p => by
    have ih : (p.stores name (fv :: fields)).Slot i n f ↔ _ :=
      slot_stores fields (p.store name fv.1 fv.2)
    rw [ih, slot_store]
    simp only [List.map_cons, List.mem_cons]
    by_cases hname : n = name
    · by_cases hlater : f ∈ fields.map Prod.fst
      · rw [if_pos ⟨hname, hlater⟩, if_pos ⟨hname, .inr hlater⟩]
        rfl
      · rw [if_neg fun h => hlater h.2]
        simp only [hname, hlater, or_false]
    · rw [if_neg fun h => hname h.1, if_neg fun h => hname h.1, if_neg fun h => hname h.1]

/-- The line after `p` is what the table `p'` has for this part of the register,
and the rest of it is unchanged. -/
def Puts (p p' : RegParser) (name : String) (part : RegPart) : Prop :=
  ∀ i n k, p'.Entry i n k ↔ if n = name ∧ k = part then i = p.line + 1 else p.Entry i n k

theorem RegParser.entry_iff {i : ℕ} {n : String} {k : RegPart} :
    p.Entry i n k ↔ ∃ f : RegField, f.part = k ∧ p.Slot i n f := by
  constructor
  · rintro ⟨st, hst, hline, hname, hpart⟩
    exact ⟨st.field, hpart, st, hst, hline, hname, rfl⟩
  · rintro ⟨f, hf, st, hst, hline, hname, rfl⟩
    exact ⟨st, hst, hline, hname, hf⟩

/-- All the fields of a part are stored together. -/
theorem puts_stores {name : String} {part : RegPart} {fields : List (RegField × String)}
    (hpart : ∀ f : RegField, f ∈ fields.map Prod.fst ↔ f.part = part)
    (hne : ∃ f : RegField, f.part = part) :
    Puts p (RegParser.stores { p with line := p.line + 1 } name fields) name part := by
  intro i n k
  simp only [RegParser.entry_iff, slot_stores, hpart]
  by_cases hslot : n = name ∧ k = part
  · obtain ⟨rfl, rfl⟩ := hslot
    obtain ⟨g, hg⟩ := hne
    rw [if_pos ⟨rfl, rfl⟩]
    constructor
    · rintro ⟨f, hf, h⟩
      rwa [if_pos ⟨rfl, hf⟩] at h
    · intro h
      exact ⟨g, hg, by rwa [if_pos ⟨rfl, hg⟩]⟩
  · rw [if_neg hslot]
    refine exists_congr fun f => and_congr_right ?_
    rintro rfl
    rw [if_neg hslot]
    exact Iff.rfl

/-- A part with one field. -/
theorem puts_store {name value : String} {field : RegField}
    (hone : ∀ f : RegField, f.part = field.part → f = field) :
    Puts p (RegParser.store { p with line := p.line + 1 } name field value) name field.part := by
  have hone' : ∀ f : RegField, f ∈ [(field, value)].map Prod.fst ↔ f.part = field.part := by
    intro f
    rw [List.map_singleton, List.mem_singleton]
    exact ⟨congrArg _, hone f⟩
  exact puts_stores hone' ⟨field, rfl⟩

/-! ### Blocks -/

/-- A comment, which the loop passes over. -/
def RegComment (l : List Char) : Prop := l.head? = some '#'

/-- An empty line, or one of white space. -/
def RegBlank (l : List Char) : Prop := ∀ c ∈ l, perlSpace c = true

/-- The place of a block a line stands at: in which register, and among which
settings. -/
inductive RegCtx
  | between
  | title (name type : String)
  | settings (name : String) (keys : List String)
  | range (name : String)

/-- The register a header declares, its second word. -/
def headerName (l : List Char) : String := (perlSplit 8 l).getD 1 ""

/-- The type a header declares, its seventh word. -/
def headerType (l : List Char) : String := (perlSplit 8 l).getD 6 ""

/-- The key a setting is for, its first word. -/
def settingKey (l : List Char) : String := (perlSplit 3 l).getD 0 ""

/-- What follows the pretty name of a register of type `type`. -/
def afterTitle (name type : String) : RegCtx :=
  if type = "list" then .settings name [] else if type = "range" then .range name else .between

/-- The lines are blocks with comments in them, and only blank lines between
them: a header that declares another register than `names`, a pretty name, and
the settings for keys of their own up to an empty line or the range, if the type
has them. The last block may stop anywhere. -/
inductive Blocks : List String → RegCtx → List (List Char) → Prop
  | nil (names : List String) (c : RegCtx) : Blocks names c []
  | comment {names : List String} {c : RegCtx} {l : List Char} {ls : List (List Char)} :
    RegComment l → Blocks names c ls → Blocks names c (l :: ls)
  | blank {names : List String} {l : List Char} {ls : List (List Char)} :
    RegBlank l → Blocks names .between ls → Blocks names .between (l :: ls)
  | header {names : List String} {l : List Char} {ls : List (List Char)} :
    l.head? = some '@' → headerName l ∉ names →
    Blocks (headerName l :: names) (.title (headerName l) (headerType l)) ls →
    Blocks names .between (l :: ls)
  | title {names : List String} {name type : String} {l : List Char} {ls : List (List Char)} :
    ¬ RegComment l → Blocks names (afterTitle name type) ls →
    Blocks names (.title name type) (l :: ls)
  | setting {names : List String} {name : String} {keys : List String} {l : List Char}
    {ls : List (List Char)} :
    ¬ RegComment l → l ≠ [] → settingKey l ∉ keys →
    Blocks names (.settings name (settingKey l :: keys)) ls →
    Blocks names (.settings name keys) (l :: ls)
  | last {names : List String} {name : String} {keys : List String} {ls : List (List Char)} :
    Blocks names .between ls → Blocks names (.settings name keys) ([] :: ls)
  | range {names : List String} {name : String} {l : List Char} {ls : List (List Char)} :
    ¬ RegComment l → Blocks names .between ls → Blocks names (.range name) (l :: ls)

/-! ### What the parser does with a line -/

/-- The parser is at this place of a block. -/
def RegParser.At (p : RegParser) : RegCtx → Prop
  | .between => p.level = 0
  | .title name type => p.level = 1 ∧ p.regname = name ∧ p.regtype = type ∧ isValidType type = true
  | .settings name _ => p.level = 2 ∧ p.regname = name ∧ p.regtype = "list"
  | .range name => p.level = 2 ∧ p.regname = name ∧ p.regtype = "range"

/-- A line that has to be recorded. -/
def Due (l : List Char) : Prop := ¬ RegComment l ∧ ¬ RegBlank l

/-- What the line `l` does: where the parser is after it, and what it writes. -/
inductive LineDoes (p p' : RegParser) : RegCtx → List Char → RegCtx → Prop
  | comment {c : RegCtx} {l : List Char} :
    RegComment l → p'.registers = p.registers → LineDoes p p' c l c
  | ignored {l : List Char} :
    ¬ RegComment l → l.head? ≠ some '@' → p'.registers = p.registers →
    LineDoes p p' .between l .between
  | header {l : List Char} :
    l.head? = some '@' → Puts p p' (headerName l) .header →
    LineDoes p p' .between l (.title (headerName l) (headerType l))
  | title {name type : String} {l : List Char} :
    ¬ RegComment l → Puts p p' name .pname →
    LineDoes p p' (.title name type) l (afterTitle name type)
  | setting {name : String} {keys : List String} {l : List Char} :
    Due l → Puts p p' name (.setting (settingKey l)) →
    LineDoes p p' (.settings name keys) l (.settings name (settingKey l :: keys))
  | last {name : String} {keys : List String} :
    p'.registers = p.registers → LineDoes p p' (.settings name keys) [] .between
  | range {name : String} {l : List Char} :
    Due l → Puts p p' name .range → LineDoes p p' (.range name) l .between

/-- The line is read: the parser goes from `c` to the place where the line leaves it. -/
structure Reads (p : RegParser) (c : RegCtx) (l : List Char) (p' : RegParser) : Prop where
  line : p'.line = p.line + 1
  does : ∃ c', LineDoes p p' c l c' ∧ p'.At c'

theorem not_comment_of_head {c : Char} (h : l.head? = some c) (hc : c ≠ '#') : ¬ RegComment l := by
  intro hcomment
  exact hc (Option.some.inj (h.symm.trans hcomment))

theorem not_blank_of_head {c : Char} (h : l.head? = some c) (hc : perlSpace c = false) :
    ¬ RegBlank l := by
  intro hblank
  exact absurd (hblank c (List.mem_of_head? h)) (by simp [hc])

theorem due_header (h : l.head? = some '@') : Due l :=
  ⟨not_comment_of_head h (by decide), not_blank_of_head h (by decide)⟩

/-- A blank line has no words. -/
theorem perlSplit_blank (h : RegBlank l) : perlSplit 3 l = [] := by
  unfold perlSplit
  rw [List.dropWhile_eq_nil_iff.mpr h]
  simp [splitRest]

/-- A line with words in it has to be recorded. -/
theorem due_of_split {ws : List String} (hcomment : ¬ RegComment l) (hsplit : perlSplit 3 l = ws)
    (hws : ws ≠ []) : Due l :=
  ⟨hcomment, fun hblank => hws (hsplit.symm.trans (perlSplit_blank hblank))⟩

/-- A header is recorded, another line is not even looked at. -/
theorem parseHeader_does (hcomment : ¬ RegComment l) (hlevel : p.level = 0)
    (h : RegParser.parseHeader { p with line := p.line + 1 } l = .ok p') :
    Reads p .between l p' := by
  unfold RegParser.parseHeader at h
  split_ifs at h with hat
  · split at h
    · next ul name cardreg start stop rw type hsplit =>
      simp only at h
      split_ifs at h with hvalid
      obtain rfl := Except.ok.inj h
      have hname : headerName l = name := by
        unfold headerName
        rw [hsplit]
        rfl
      have htype : headerType l = type := by
        unfold headerType
        rw [hsplit]
        rfl
      have hputs : Puts p (RegParser.stores { p with line := p.line + 1 } name
          [(.cardreg, cardreg), (.start, start), (.stop, stop), (.readable, perlMatch rw 'r'),
            (.writable, perlMatch rw 'w'), (.stateful, perlMatch rw 's'), (.type, type)]) name
              .header := by
        refine puts_stores (fun f => ?_) ⟨.cardreg, rfl⟩
        cases f <;> simp [RegField.part]
      refine ⟨rfl, .title (headerName l) (headerType l), .header hat ?_, ?_⟩
      · rw [hname]
        exact hputs
      · exact ⟨congrArg (· + 1) hlevel, hname.symm, htype.symm, by rw [htype]; simpa using hvalid⟩
    · cases h
  · obtain rfl := Except.ok.inj h
    exact ⟨rfl, .between, .ignored hcomment hat rfl, hlevel⟩

theorem parseName_does {name type : String} (hcomment : ¬ RegComment l)
    (hat : p.At (.title name type)) :
    Reads p (.title name type) l (RegParser.parseName { p with line := p.line + 1 } l) := by
  obtain ⟨hlevel, rfl, rfl, hvalid⟩ := hat
  have hcases : p.regtype = "list" ∨ p.regtype = "toggle" ∨ p.regtype = "value" ∨
    p.regtype = "range" :=
    of_decide_eq_true hvalid
  have hputs :
    Puts p (RegParser.store { p with line := p.line + 1 } p.regname .pname (String.ofList l))
      p.regname .pname := puts_store (fun f hf => by cases f <;> cases hf; rfl)
  refine ⟨?_, afterTitle p.regname p.regtype, .title hcomment ?_, ?_⟩
  · unfold RegParser.parseName RegParser.store
    simp only
    split_ifs <;> rfl
  · unfold RegParser.parseName
    simp only
    split_ifs <;> exact hputs
  · unfold RegParser.parseName afterTitle
    rcases hcases with h | h | h | h <;> simp [RegParser.store, RegParser.At, h, hlevel]

theorem parseItem_list {name : String} {keys : List String} (hcomment : ¬ RegComment l)
    (hat : p.At (.settings name keys))
    (h : RegParser.parseItem { p with line := p.line + 1 } l = .ok p') :
    Reads p (.settings name keys) l p' := by
  obtain ⟨hlevel, rfl, htype⟩ := hat
  unfold RegParser.parseItem at h
  rw [if_pos htype] at h
  split_ifs at h with hnil
  · obtain rfl := Except.ok.inj h
    subst hnil
    exact ⟨rfl, .between, .last rfl, rfl⟩
  · split at h
    · next kname kval hsplit =>
      obtain rfl := Except.ok.inj h
      have hkey : settingKey l = kname := by
        unfold settingKey
        rw [hsplit]
        rfl
      have hputs :
        Puts p (RegParser.store { p with line := p.line + 1 } p.regname (.key kname) kval)
          p.regname (.setting kname) := puts_store (fun f hf => by cases f <;> cases hf; rfl)
      refine ⟨rfl, .settings p.regname (settingKey l :: keys),
        .setting (due_of_split hcomment hsplit (by simp)) ?_, ?_⟩
      · rw [hkey]
        exact hputs
      · exact ⟨hlevel, rfl, htype⟩
    · cases h

theorem parseItem_range {name : String} (hcomment : ¬ RegComment l) (hat : p.At (.range name))
    (h : RegParser.parseItem { p with line := p.line + 1 } l = .ok p') :
    Reads p (.range name) l p' := by
  obtain ⟨hlevel, rfl, htype⟩ := hat
  unfold RegParser.parseItem at h
  rw [if_neg (by rw [htype]; decide), if_pos htype] at h
  split at h
  · next rmin rmax hsplit =>
    obtain rfl := Except.ok.inj h
    have hputs : Puts p (RegParser.stores { p with line := p.line + 1 } p.regname
        [(.rangeMin, rmin), (.rangeMax, rmax)]) p.regname .range := by
      refine puts_stores (fun f => ?_) ⟨.rangeMin, rfl⟩
      cases f <;> simp [RegField.part]
    exact ⟨rfl, .between, .range (due_of_split hcomment hsplit (by simp)) hputs, rfl⟩
  · cases h

/-- A line that is read without an error does one of these. -/
theorem parseLine_does {c : RegCtx} (hat : p.At c) (h : p.parseLine l = .ok p') :
    Reads p c l p' := by
  unfold RegParser.parseLine at h
  simp only at h
  by_cases hcomment : l.head? = some '#'
  · rw [if_pos hcomment] at h
    obtain rfl := Except.ok.inj h
    refine ⟨rfl, c, .comment hcomment rfl, ?_⟩
    cases c <;> exact hat
  · rw [if_neg hcomment] at h
    cases c with
    | between =>
      obtain ⟨level, line, regname, regtype, registers⟩ := p
      obtain rfl : level = 0 := hat
      exact parseHeader_does hcomment rfl h
    | title name type =>
      obtain ⟨level, line, regname, regtype, registers⟩ := p
      obtain rfl : level = 1 := hat.1
      obtain rfl := Except.ok.inj h
      exact parseName_does hcomment hat
    | settings name keys =>
      obtain ⟨level, line, regname, regtype, registers⟩ := p
      obtain rfl : level = 2 := hat.1
      exact parseItem_list hcomment hat h
    | range name =>
      obtain ⟨level, line, regname, regtype, registers⟩ := p
      obtain rfl : level = 2 := hat.1
      exact parseItem_range hcomment hat h

/-! ### The run -/

/-- Line `i` is in the table. -/
def RegParser.Kept (p : RegParser) (i : ℕ) : Prop := ∃ name part, p.Entry i name part

/-- The table is from the lines read so far, one thing from each. -/
structure RegParser.Tidy (p : RegParser) : Prop where
  upto : ∀ i name part, p.Entry i name part → i ≤ p.line
  single : ∀ i name part name' part', p.Entry i name part → p.Entry i name' part' →
    name' = name ∧ part' = part

/-- What the table has of the register the parser is in. -/
def RegParser.Open (p : RegParser) (names : List String) : RegCtx → Prop
  | .between => True
  | .title name _ => name ∈ names ∧ ∀ i part, p.Entry i name part → part = .header
  | .settings name keys => name ∈ names ∧ ∀ key, key ∈ keys ↔ ∃ i, p.Entry i name (.setting key)
  | .range name => name ∈ names ∧ ∀ i, ¬ p.Entry i name .range

/-- The lines of `text` read so far that have to be recorded are: the parser is
at `c`, and `names` are the registers declared. -/
structure Sofar (text : List (List Char)) (names : List String) (c : RegCtx)
    (p : RegParser) : Prop where
  at_ctx : p.At c
  tidy : p.Tidy
  due : ∀ i name part, p.Entry i name part → part ≠ .pname → ∃ j l, i = j + 1 ∧
    text[j]? = some l ∧ Due l
  owner : ∀ i name part, p.Entry i name part → name ∈ names
  declared : ∀ name ∈ names, ∃ i, p.Entry i name .header
  open_ctx : p.Open names c
  kept : ∀ j l, j < p.line → text[j]? = some l → Due l → p.Kept (j + 1)

variable {text ls : List (List Char)} {names names' : List String} {c c' : RegCtx} {name : String}
    {part : RegPart}

theorem entry_congr (h : p'.registers = p.registers) (i : ℕ) (n : String) (k : RegPart) :
    p'.Entry i n k ↔ p.Entry i n k := by
  unfold RegParser.Entry
  rw [h]

/-- In a table with one thing from each line, what is there is recorded. -/
theorem RegParser.Tidy.recorded_iff (h : p.Tidy) (i : ℕ) : p.Recorded i ↔ p.Kept i := by
  constructor
  · rintro ⟨_, _, ⟨st, hst, hline⟩, -⟩
    exact ⟨st.name, st.field.part, st, hst, hline, rfl, rfl⟩
  · rintro ⟨name, part, he⟩
    obtain ⟨st, hst, hline, -⟩ := id he
    exact ⟨name, part, ⟨st, hst, hline⟩,
      fun st hst hline => h.single i name part _ _ he ⟨st, hst, hline, rfl, rfl⟩⟩

/-- A line writes one part or none. -/
theorem LineDoes.puts (h : LineDoes p p' c l c') :
    p'.registers = p.registers ∨ ∃ name part, Puts p p' name part := by
  cases h with
  | comment _ hregs => exact .inl hregs
  | ignored _ _ hregs => exact .inl hregs
  | header _ hw => exact .inr ⟨_, _, hw⟩
  | title _ hw => exact .inr ⟨_, _, hw⟩
  | setting _ hw => exact .inr ⟨_, _, hw⟩
  | last hregs => exact .inl hregs
  | range _ hw => exact .inr ⟨_, _, hw⟩

/-- The line that is read is all that can be new in the table. -/
theorem Reads.entry (h : Reads p c l p') : ∃ name part, ∀ i n k, p'.Entry i n k →
    p.Entry i n k ∨ (i = p.line + 1 ∧ n = name ∧ k = part) := by
  obtain ⟨-, c', hdoes, -⟩ := h
  rcases hdoes.puts with hregs | ⟨name, part, hw⟩
  · exact ⟨"", .header, fun i n k he => .inl ((entry_congr hregs i n k).mp he)⟩
  · refine ⟨name, part, fun i n k he => ?_⟩
    rw [hw i n k] at he
    split_ifs at he with hslot
    · exact .inr ⟨he, hslot⟩
    · exact .inl he

theorem Reads.tidy (h : Reads p c l p') (ht : p.Tidy) : p'.Tidy := by
  obtain ⟨name, part, hentry⟩ := h.entry
  have hline := h.line
  refine ⟨fun i n k he => ?_, fun i n k n' k' he he' => ?_⟩
  · rcases hentry i n k he with he | ⟨rfl, -⟩
    · have := ht.upto i n k he
      omega
    · omega
  · rcases hentry i n k he with he | ⟨rfl, rfl, rfl⟩ <;>
      rcases hentry _ n' k' he' with he' | ⟨hi, rfl, rfl⟩
    · exact ht.single i n k n' k' he he'
    · have := ht.upto i n k he
      omega
    · have := ht.upto _ n' k' he'
      omega
    · exact ⟨rfl, rfl⟩

/-- A line that is not in the table once it is read never comes into it. -/
theorem Reads.kept_back (h : Reads p c l p') {i : ℕ} (hi : i ≤ p.line) (hkept : p'.Kept i) :
    p.Kept i := by
  obtain ⟨name, part, hentry⟩ := h.entry
  obtain ⟨n, k, he⟩ := hkept
  rcases hentry i n k he with he | ⟨rfl, -⟩
  · exact ⟨n, k, he⟩
  · omega

theorem open_congr (h : p'.registers = p.registers) (hopen : p.Open names c) : p'.Open names c := by
  cases c with
  | between => trivial
  | title name type => exact ⟨hopen.1, fun i k hi => hopen.2 i k ((entry_congr h i name k).mp hi)⟩
  | settings name keys =>
    refine ⟨hopen.1, fun key => (hopen.2 key).trans ?_⟩
    exact exists_congr fun i => (entry_congr h i name _).symm
  | range name => exact ⟨hopen.1, fun i hi => hopen.2 i ((entry_congr h i name _).mp hi)⟩

theorem Sofar.start (text : List (List Char)) : Sofar text [] .between .start := by
  have hnone : ∀ i name part, ¬ RegParser.start.Entry i name part := by
    rintro i name part ⟨st, hst, -⟩
    cases hst
  exact ⟨rfl, ⟨fun i n k h => absurd h (hnone i n k), fun i n k _ _ h => absurd h (hnone i n k)⟩,
    fun i n k h => absurd h (hnone i n k), fun i n k h => absurd h (hnone i n k),
      List.forall_mem_nil _, trivial,
    fun j l h => absurd h (Nat.not_lt_zero j)⟩

/-- A line that writes nothing and need not be recorded. -/
theorem Sofar.keep (h : Sofar text names c p) (hl : text[p.line]? = some l)
    (hread : Reads p c l p') (hregs : p'.registers = p.registers) (hdue : ¬ Due l)
    (hat : p'.At c') (hopen : p.Open names c → p'.Open names c') :
    Sofar text names c' p' := by
  have hline := hread.line
  have hentry := entry_congr hregs
  refine ⟨hat, hread.tidy h.tidy, fun i n k he => ?_, fun i n k he => ?_, fun n hn => ?_,
    hopen h.open_ctx, fun j m hj hm hm' => ?_⟩
  · exact h.due i n k ((hentry i n k).mp he)
  · exact h.owner i n k ((hentry i n k).mp he)
  · obtain ⟨i, hi⟩ := h.declared n hn
    exact ⟨i, (hentry i n .header).mpr hi⟩
  · rcases Nat.lt_or_ge j p.line with hlt | hge
    · obtain ⟨n, k, he⟩ := h.kept j m hlt hm hm'
      exact ⟨n, k, (hentry _ n k).mpr he⟩
    · obtain rfl : j = p.line := by omega
      obtain rfl := Option.some.inj (hl.symm.trans hm)
      exact absurd hm' hdue

/-- A part that was not there is added to the table. -/
theorem Puts.fresh (h : Puts p p' name part) (hnew : ∀ i, ¬ p.Entry i name part) (i : ℕ)
    (n : String) (k : RegPart) :
    p'.Entry i n k ↔ p.Entry i n k ∨ (i = p.line + 1 ∧ n = name ∧ k = part) := by
  rw [h i n k]
  split_ifs with hslot
  · obtain ⟨rfl, rfl⟩ := hslot
    constructor
    · exact fun hi => .inr ⟨hi, rfl, rfl⟩
    · rintro (he | ⟨hi, -⟩)
      · exact absurd he (hnew i)
      · exact hi
  · constructor
    · exact .inl
    · rintro (he | ⟨-, hn, hk⟩)
      · exact he
      · exact absurd ⟨hn, hk⟩ hslot

/-- A line that writes a part for the first time. -/
theorem Sofar.write (h : Sofar text names c p) (hl : text[p.line]? = some l)
    (hread : Reads p c l p') (hw : Puts p p' name part) (hnew : ∀ i, ¬ p.Entry i name part)
    (hdue : part ≠ .pname → Due l) (hat : p'.At c') (hsub : names ⊆ names')
    (hname : name ∈ names') (hdecl : ∀ n ∈ names', n ∈ names ∨ n = name ∧ part = .header)
    (hopen : p'.Open names' c') : Sofar text names' c' p' := by
  have hline := hread.line
  have hentry := hw.fresh hnew
  refine ⟨hat, hread.tidy h.tidy, fun i n k he hk => ?_, fun i n k he => ?_, fun n hn => ?_, hopen,
    fun j m hj hm hm' => ?_⟩
  · rcases (hentry i n k).mp he with he | ⟨rfl, -, rfl⟩
    · exact h.due i n k he hk
    · exact ⟨p.line, l, rfl, hl, hdue hk⟩
  · rcases (hentry i n k).mp he with he | ⟨-, rfl, -⟩
    · exact hsub (h.owner i n k he)
    · exact hname
  · rcases hdecl n hn with hn | ⟨rfl, rfl⟩
    · obtain ⟨i, hi⟩ := h.declared n hn
      exact ⟨i, (hentry i n .header).mpr (.inl hi)⟩
    · exact ⟨p.line + 1, (hentry _ _ _).mpr (.inr ⟨rfl, rfl, rfl⟩)⟩
  · rcases Nat.lt_or_ge j p.line with hlt | hge
    · obtain ⟨n, k, he⟩ := h.kept j m hlt hm hm'
      exact ⟨n, k, (hentry _ n k).mpr (.inl he)⟩
    · obtain rfl : j = p.line := by omega
      exact ⟨name, part, (hentry _ _ _).mpr (.inr ⟨rfl, rfl, rfl⟩)⟩

/-- A line in whose place another one is written is gone. -/
theorem Sofar.lost (h : Sofar text names c p) (hw : Puts p p' name part) {i : ℕ}
    (hold : p.Entry i name part) :
    ¬ p'.Kept i := by
  rintro ⟨n, k, he⟩
  have hupto := h.tidy.upto i name part hold
  rw [hw i n k] at he
  split_ifs at he with hslot
  · omega
  · exact hslot (h.tidy.single i name part n k hold he)

theorem blocks_comment (hcomment : RegComment l) :
    Blocks names c (l :: ls) ↔ Blocks names c ls := by
  refine ⟨fun hb => ?_, .comment hcomment⟩
  cases hb with
  | comment _ hb => exact hb
  | blank _ hb => exact hb
  | header hat _ _ => exact absurd hcomment (due_header hat).1
  | title hno _ => exact absurd hcomment hno
  | setting hno _ _ _ => exact absurd hcomment hno
  | last _ => cases hcomment
  | range hno _ => exact absurd hcomment hno

theorem blocks_header (hat : l.head? = some '@') : Blocks names .between (l :: ls) ↔
    headerName l ∉ names ∧ Blocks (headerName l :: names)
    (.title (headerName l) (headerType l)) ls := by
  refine ⟨fun hb => ?_, fun hb => .header hat hb.1 hb.2⟩
  cases hb with
  | comment h _ => exact absurd h (due_header hat).1
  | blank h _ => exact absurd h (due_header hat).2
  | header _ hnew hb => exact ⟨hnew, hb⟩

theorem blocks_ignored (hcomment : ¬ RegComment l) (hat : l.head? ≠ some '@') :
    Blocks names .between (l :: ls) ↔ RegBlank l ∧ Blocks names .between ls := by
  refine ⟨fun hb => ?_, fun hb => .blank hb.1 hb.2⟩
  cases hb with
  | comment h _ => exact absurd h hcomment
  | blank hblank hb => exact ⟨hblank, hb⟩
  | header h _ _ => exact absurd h hat

theorem blocks_title {type : String} (hcomment : ¬ RegComment l) :
    Blocks names (.title name type) (l :: ls) ↔ Blocks names (afterTitle name type) ls := by
  refine ⟨fun hb => ?_, .title hcomment⟩
  cases hb with
  | comment h _ => exact absurd h hcomment
  | title _ hb => exact hb

theorem blocks_setting {keys : List String} (hdue : Due l) :
    Blocks names (.settings name keys) (l :: ls) ↔
    settingKey l ∉ keys ∧ Blocks names (.settings name (settingKey l :: keys)) ls := by
  have hne : l ≠ [] := by
    rintro rfl
    exact hdue.2 (List.forall_mem_nil _)
  refine ⟨fun hb => ?_, fun hb => .setting hdue.1 hne hb.1 hb.2⟩
  cases hb with
  | comment h _ => exact absurd h hdue.1
  | setting _ _ hnew hb => exact ⟨hnew, hb⟩
  | last _ => exact absurd rfl hne

theorem blocks_last {keys : List String} :
    Blocks names (.settings name keys) ([] :: ls) ↔ Blocks names .between ls := by
  refine ⟨fun hb => ?_, .last⟩
  cases hb with
  | comment h _ => cases h
  | setting _ h _ _ => exact absurd rfl h
  | last hb => exact hb

theorem blocks_range (hcomment : ¬ RegComment l) :
    Blocks names (.range name) (l :: ls) ↔ Blocks names .between ls := by
  refine ⟨fun hb => ?_, .range hcomment⟩
  cases hb with
  | comment h _ => exact absurd h hcomment
  | range _ hb => exact hb

/-- After the pretty name nothing else is known of the register. -/
theorem open_afterTitle (hname : name ∈ names)
    (hopen : ∀ i k, p.Entry i name k → k = .header ∨ k = .pname) (type : String) :
    p.Open names (afterTitle name type) := by
  unfold afterTitle
  split_ifs
  · refine ⟨hname, fun key => iff_of_false List.not_mem_nil ?_⟩
    rintro ⟨i, hi⟩
    rcases hopen i _ hi with h | h <;> cases h
  · refine ⟨hname, fun i hi => ?_⟩
    rcases hopen i _ hi with h | h <;> cases h
  · trivial

/-- A line that had to be recorded is not in the table. -/
def Missing (text : List (List Char)) (p : RegParser) : Prop :=
  ∃ j l, j < p.line ∧ text[j]? = some l ∧ Due l ∧ ¬ p.Kept (j + 1)

/-- A line that takes the place of an earlier one. -/
theorem Sofar.missing (h : Sofar text names c p) (hline : p'.line = p.line + 1)
    (hw : Puts p p' name part) {i : ℕ} (hold : p.Entry i name part) (hpart : part ≠ .pname) :
    Missing text p' := by
  obtain ⟨j, m, rfl, hm, hdue⟩ := h.due i name part hold hpart
  have := h.tidy.upto _ name part hold
  exact ⟨j, m, by omega, hm, hdue, h.lost hw hold⟩

/-- The blocks go on after the line `l`, or a line is missing from now on and there
are no blocks. -/
def GoesOn (text : List (List Char)) (p' : RegParser) (names : List String) (c : RegCtx)
    (l : List Char) : Prop :=
  (∃ names' c', Sofar text names' c' p' ∧ ∀ ls, Blocks names c (l :: ls) ↔ Blocks names' c' ls) ∨
    (Missing text p' ∧ ∀ ls, ¬ Blocks names c (l :: ls))

/-- A line between the blocks that is no header may only be blank. -/
theorem Sofar.ignored (h : Sofar text names .between p) (hl : text[p.line]? = some l)
    (hread : Reads p .between l p') (hcomment : ¬ RegComment l) (hno : l.head? ≠ some '@')
    (hregs : p'.registers = p.registers) (hat : p'.At .between) :
    GoesOn text p' names .between l := by
  have hline := hread.line
  by_cases hblank : RegBlank l
  · refine .inl ⟨names, .between, h.keep hl hread hregs (fun hdue => hdue.2 hblank) hat fun _ =>
      trivial, fun ls => ?_⟩
    rw [blocks_ignored hcomment hno]
    exact and_iff_right hblank
  · refine .inr ⟨⟨p.line, l, by omega, hl, ⟨hcomment, hblank⟩, ?_⟩,
      fun ls hb => hblank ((blocks_ignored hcomment hno).mp hb).1⟩
    rintro ⟨n, k, he⟩
    have := h.tidy.upto _ n k ((entry_congr hregs _ n k).mp he)
    omega

/-- A header takes the place of the one that declared its register before. -/
theorem Sofar.header (h : Sofar text names .between p) (hl : text[p.line]? = some l)
    (hread : Reads p .between l p') (hhead : l.head? = some '@')
    (hw : Puts p p' (headerName l) .header) (hat : p'.At (.title (headerName l) (headerType l))) :
    GoesOn text p' names .between l := by
  by_cases hold : headerName l ∈ names
  · obtain ⟨i, hi⟩ := h.declared _ hold
    exact .inr ⟨h.missing hread.line hw hi (by decide),
      fun ls hb => ((blocks_header hhead).mp hb).1 hold⟩
  · have hnew : ∀ i k, ¬ p.Entry i (headerName l) k := fun i k hi => hold (h.owner i _ k hi)
    have hdecl : ∀ n ∈ headerName l :: names,
        n ∈ names ∨ n = headerName l ∧ RegPart.header = .header := by
      intro n hn
      rcases List.mem_cons.mp hn with hn | hn
      · exact .inr ⟨hn, rfl⟩
      · exact .inl hn
    have hopen : p'.Open (headerName l :: names) (.title (headerName l) (headerType l)) := by
      refine ⟨List.mem_cons_self, fun i k hi => ?_⟩
      rcases (hw.fresh (fun i => hnew i .header) i _ k).mp hi with hi | ⟨-, -, hk⟩
      · exact absurd hi (hnew i k)
      · exact hk
    refine .inl ⟨_, _, h.write hl hread hw (fun i => hnew i .header) (fun _ => due_header hhead) hat
      (List.subset_cons_self ..) List.mem_cons_self hdecl hopen, fun ls => ?_⟩
    rw [blocks_header hhead]
    exact and_iff_right hold

/-- A pretty name is the register's first. -/
theorem Sofar.title {type : String} (h : Sofar text names (.title name type) p)
    (hl : text[p.line]? = some l) (hread : Reads p (.title name type) l p')
    (hcomment : ¬ RegComment l) (hw : Puts p p' name .pname) (hat : p'.At (afterTitle name type)) :
    GoesOn text p' names (.title name type) l := by
  obtain ⟨hname, hopen⟩ := h.open_ctx
  have hnew : ∀ i, ¬ p.Entry i name .pname := fun i hi => by cases hopen i _ hi
  have hopen' : p'.Open names (afterTitle name type) := by
    refine open_afterTitle hname (fun i k hi => ?_) _
    rcases (hw.fresh hnew i _ k).mp hi with hi | ⟨-, -, hk⟩
    · exact .inl (hopen i k hi)
    · exact .inr hk
  exact .inl ⟨names, _, h.write hl hread hw hnew (fun hne => absurd rfl hne) hat
    (List.Subset.refl _) hname (fun n hn => .inl hn) hopen', fun ls => blocks_title hcomment⟩

/-- A setting takes the place of the one its key had before. -/
theorem Sofar.setting {keys : List String} (h : Sofar text names (.settings name keys) p)
    (hl : text[p.line]? = some l) (hread : Reads p (.settings name keys) l p') (hdue : Due l)
    (hw : Puts p p' name (.setting (settingKey l)))
    (hat : p'.At (.settings name (settingKey l :: keys))) :
    GoesOn text p' names (.settings name keys) l := by
  obtain ⟨hname, hkeys⟩ := h.open_ctx
  by_cases hold : settingKey l ∈ keys
  · obtain ⟨i, hi⟩ := (hkeys _).mp hold
    exact .inr ⟨h.missing hread.line hw hi (by simp),
      fun ls hb => ((blocks_setting hdue).mp hb).1 hold⟩
  · have hnew : ∀ i, ¬ p.Entry i name (.setting (settingKey l)) :=
      fun i hi => hold ((hkeys _).mpr ⟨i, hi⟩)
    have hopen : p'.Open names (.settings name (settingKey l :: keys)) := by
      refine ⟨hname, fun key => ?_⟩
      rw [List.mem_cons, hkeys key]
      constructor
      · rintro (rfl | ⟨i, hi⟩)
        · exact ⟨p.line + 1, (hw.fresh hnew _ _ _).mpr (.inr ⟨rfl, rfl, rfl⟩)⟩
        · exact ⟨i, (hw.fresh hnew _ _ _).mpr (.inl hi)⟩
      · rintro ⟨i, hi⟩
        rcases (hw.fresh hnew _ _ _).mp hi with hi | ⟨-, -, hk⟩
        · exact .inr ⟨i, hi⟩
        · exact .inl (RegPart.setting.inj hk)
    refine .inl ⟨names, _, h.write hl hread hw hnew (fun _ => hdue) hat (List.Subset.refl _) hname
      (fun n hn => .inl hn) hopen, fun ls => ?_⟩
    rw [blocks_setting hdue]
    exact and_iff_right hold

/-- Each line goes on with the blocks, or leaves one missing. -/
theorem Sofar.step (h : Sofar text names c p) (hl : text[p.line]? = some l)
    (hread : Reads p c l p') : GoesOn text p' names c l := by
  obtain ⟨c', hdoes, hat⟩ := hread.does
  cases hdoes with
  | comment hcomment hregs =>
    exact .inl ⟨names, c, h.keep hl hread hregs (fun hdue => hdue.1 hcomment) hat
      (open_congr hregs), fun ls => blocks_comment hcomment⟩
  | ignored hcomment hno hregs => exact h.ignored hl hread hcomment hno hregs hat
  | header hhead hw => exact h.header hl hread hhead hw hat
  | title hcomment hw => exact h.title hl hread hcomment hw hat
  | setting hdue hw => exact h.setting hl hread hdue hw hat
  | last hregs =>
    exact .inl ⟨names, .between, h.keep hl hread hregs (fun hdue => hdue.2 (List.forall_mem_nil _))
      hat fun _ => trivial, fun ls => blocks_last⟩
  | range hdue hw =>
    obtain ⟨hname, hopen⟩ := h.open_ctx
    exact .inl ⟨names, .between, h.write hl hread hw hopen (fun _ => hdue) hat
      (List.Subset.refl _) hname (fun n hn => .inl hn) trivial, fun ls => blocks_range hdue.1⟩

theorem parseLoop_kept_back : ∀ {ls : List (List Char)} {p p' : RegParser} {c : RegCtx}, p.At c →
    p.parseLoop ls = .ok p' →
    ∀ {i : ℕ}, i ≤ p.line → p'.Kept i → p.Kept i
  | [], p, p', c, _, h, i, _, hkept => by
    obtain rfl := Except.ok.inj h
    exact hkept
  | l :: ls, p, p', c, hat, h, i, hi, hkept => by
    unfold RegParser.parseLoop at h
    split at h
    · cases h
    · next p₁ h₁ =>
      have hread := parseLine_does hat h₁
      obtain ⟨c₁, -, hat₁⟩ := hread.does
      have := hread.line
      exact hread.kept_back hi (parseLoop_kept_back hat₁ h (by omega) hkept)

theorem parseLoop_tidy : ∀ {ls : List (List Char)} {p p' : RegParser}
    {c : RegCtx}, p.At c → p.Tidy →
    p.parseLoop ls = .ok p' → p'.Tidy
  | [], p, p', c, _, ht, h => by
    obtain rfl := Except.ok.inj h
    exact ht
  | l :: ls, p, p', c, hat, ht, h => by
    unfold RegParser.parseLoop at h
    split at h
    · cases h
    · next p₁ h₁ =>
      have hread := parseLine_does hat h₁
      obtain ⟨c₁, -, hat₁⟩ := hread.does
      exact parseLoop_tidy hat₁ (hread.tidy ht) h

/-- From where the parser is on, every line of the text that has to be is in the
table at the end if and only if the lines go on as blocks. -/
theorem parseLoop_kept : ∀ (ls : List (List Char)) {p p' : RegParser} {names : List String}
    {c : RegCtx},
    Sofar text names c p → text.drop p.line = ls → p.parseLoop ls = .ok p' →
    ((∀ j l, text[j]? = some l → Due l → p'.Kept (j + 1)) ↔ Blocks names c ls)
  | [], p, p', names, c, hs, hdrop, h => by
    obtain rfl := Except.ok.inj h
    refine iff_of_true (fun j l hl hdue => hs.kept j l ?_ hl hdue) (.nil names c)
    have := List.drop_eq_nil_iff.mp hdrop
    have := (List.getElem?_eq_some_iff.mp hl).1
    omega
  | l :: ls, p, p', names, c, hs, hdrop, h => by
    unfold RegParser.parseLoop at h
    split at h
    · cases h
    · next p₁ h₁ =>
      have hl : text[p.line]? = some l := by
        rw [← List.head?_drop, hdrop]
        rfl
      have hread := parseLine_does hs.at_ctx h₁
      rcases hs.step hl hread with ⟨names', c', hs₁, hblocks⟩ | ⟨⟨j, m, hj, hm, hdue, hgone⟩, hno⟩
      · rw [hblocks ls]
        refine parseLoop_kept ls hs₁ ?_ h
        rw [hread.line, ← List.tail_drop, hdrop, List.tail_cons]
      · obtain ⟨c₁, -, hat₁⟩ := hread.does
        exact iff_of_false (fun hall => hgone (parseLoop_kept_back hat₁ h hj (hall j m hm hdue)))
          (hno ls)

/-- A text that `registers.pl` reads without an error is recorded, every line
but the empty, the blank and the comments, if and only if it is made of blocks
that declare different registers and give different keys. -/
theorem recorded_iff_blocks (text : String) (p : RegParser) (h : RegParser.parse text = .ok p) :
    (∀ i l, (perlLines text.toList)[i]? = some l → ¬ RegComment l → ¬ RegBlank l →
      p.Recorded (i + 1)) ↔
      Blocks [] .between (perlLines text.toList) := by
  have hstart := Sofar.start (perlLines text.toList)
  have htidy : p.Tidy := parseLoop_tidy hstart.at_ctx hstart.tidy h
  rw [← parseLoop_kept (perlLines text.toList) hstart rfl h]
  constructor
  · exact fun hall j l hl hdue => (htidy.recorded_iff _).mp (hall j l hl hdue.1 hdue.2)
  · exact fun hall i l hl hcomment hblank =>
      (htidy.recorded_iff _).mpr (hall i l hl ⟨hcomment, hblank⟩)

/-- A block of `registers.info`, below a comment. -/
def splitstart : String := "# Split screen\n@ splitstart 12 0 15 rws value\nSplit Screen Start\n\n"

/-- A block whose settings stand under a type that has none. -/
def splittype : String :=
  "@ splittype 12 30 31 rws value\nSplit Screen Type\nhoriz \t\t0\nvert \t\t1\n"

theorem recorded_iff_blocks_splitstart : ∃ p, RegParser.parse splitstart = .ok p ∧
    ((∀ i l, (perlLines splitstart.toList)[i]? = some l → ¬ RegComment l → ¬ RegBlank l →
      p.Recorded (i + 1)) ↔
      Blocks [] .between (perlLines splitstart.toList)) := by
  have hok : (RegParser.parse splitstart).isOk = true := by decide +kernel
  match h : RegParser.parse splitstart with
  | .ok p => exact ⟨p, rfl, recorded_iff_blocks splitstart p h⟩
  | .error e =>
    rw [h] at hok
    cases hok

/-- The shipped block is read without an error, and its settings are gone. -/
theorem settings_dropped : ¬ ∀ text p, RegParser.parse text = .ok p →
    ∀ i l, (perlLines text.toList)[i]? = some l → ¬ RegComment l → ¬ RegBlank l →
      p.Recorded (i + 1) := by
  intro hall
  have hlines : (RegParser.parse splittype).toOption.map (fun p => p.registers.map (·.line)) =
      some [1, 1, 1, 1, 1, 1, 1, 2] := by decide +kernel
  match h : RegParser.parse splittype with
  | .ok p =>
    rw [h] at hlines
    have hstored : p.registers.map (·.line) = [1, 1, 1, 1, 1, 1, 1, 2] := Option.some.inj hlines
    have hhead : "horiz \t\t0".toList.head? = some 'h' := by decide +kernel
    obtain ⟨_, _, ⟨st, hst, hline⟩, _⟩ :=
      hall splittype p h 2 "horiz \t\t0".toList (by decide +kernel)
      (not_comment_of_head hhead (by decide)) (not_blank_of_head hhead (by decide))
    have hmem : st.line ∈ p.registers.map (·.line) := List.mem_map_of_mem hst
    rw [hline, hstored] at hmem
    exact absurd hmem (by decide)
  | .error e =>
    rw [h] at hlines
    cases hlines

end AjaDriver
