import CommandGrammar.Proofs.Pieces

/-!
# Lines of the window language

A line is one or more commands, each with its criteria in brackets, joined by separators. `Line.pieces` says how
it is written and `Line.trace` what it asks for. The table of the window language makes of each written form of
a line the trace that the line asks for.

* `Order`, `Command`, `Line` — lines without their written form.
* `walk_order`, `walk_block`, `walk_line` — what the table makes of them, part by part.
* `written_print` — every line can be written.
* `parse_line` — the statement about all texts of a line.
-/

namespace CommandGrammar.Window

/-! ## Lines -/

/-- One of some words. -/
abbrev OneOf (words : List String) := { word : String // word ∈ words }

/-- A text that can stand between quotes as it is. -/
abbrev Quoted := { text : String // Quotable text.toList }

/-- A text can be quoted if a mark behind it is the first that ends it. -/
theorem quotable_of_upToMark? {text : List Char}
    (h : Text.upToMark? '"' '"' (text ++ ['"']) = some text) : Quotable text := by
  obtain ⟨-, -, hquotable⟩ := upToMark?_eq_some_iff.mp h
  exact hquotable

/-- What stands in a pair of brackets. -/
structure Criterion where
  name : OneOf criteria
  value : Quoted

/-- Where to go from a workspace. -/
def neighbours : List String := ["next_on_output", "prev_on_output", "next", "prev"]

/-- The styles of a border. -/
def borderStyles : List String := ["normal", "none", "1pixel", "toggle"]

/-- What a command is to do. -/
inductive Order where
  | exit
  | restart
  | reload
  | fullscreen
  | move (direction : OneOf directions)
  | moveBy (direction : OneOf directions) (pixels : Quoted) (unit : Bool)
  | moveToNeighbour (direction : OneOf ["next", "prev"])
  | moveTo (workspace : Quoted)
  | exec (command : Quoted)
  | execSilently (command : Quoted)
  | border (style : OneOf borderStyles)
  | neighbour (direction : OneOf neighbours)
  | backAndForth
  | workspace (name : Quoted)
  | focus
  | focusDirection (direction : OneOf directions)
  | focusLevel (level : OneOf ["parent", "child"])
  | kill
  | killMode (mode : OneOf ["window", "client"])
  | mark (name : Quoted)
  | nop
  | nopComment (comment : Quoted)

/-- An order behind any number of blocks of criteria. -/
structure Command where
  blocks : List (List Criterion)
  order : Order

/-- What joins two commands. -/
inductive Separator where
  | comma
  | semicolon
  deriving DecidableEq

/-- One or more commands, each but the last one with the separator behind it. -/
structure Line where
  joined : List (Command × Separator)
  last : Command

/-! ## How lines are written -/

/-- The pieces of a criterion. -/
def Criterion.pieces (c : Criterion) : List Piece := [.keyword c.name, .mark '=', .quoted c.value]

/-- The pieces of an order. -/
def Order.pieces : Order → List Piece
  | .exit => [.keyword "exit"]
  | .restart => [.keyword "restart"]
  | .reload => [.keyword "reload"]
  | .fullscreen => [.keyword "fullscreen"]
  | .move direction => [.keyword "move", .keyword direction]
  | .moveBy direction pixels unit =>
    [.keyword "move", .keyword direction, .quoted pixels] ++ if unit then [.keyword "px"] else []
  | .moveToNeighbour direction => [.keyword "move", .keyword "workspace", .keyword direction]
  | .moveTo name => [.keyword "move", .keyword "workspace", .quoted name]
  | .exec command => [.keyword "exec", .quoted command]
  | .execSilently command => [.keyword "exec", .keyword "--no-startup-id", .quoted command]
  | .border style => [.keyword "border", .keyword style]
  | .neighbour direction => [.keyword "workspace", .keyword direction]
  | .backAndForth => [.keyword "workspace", .keyword "back_and_forth"]
  | .workspace name => [.keyword "workspace", .quoted name]
  | .focus => [.keyword "focus"]
  | .focusDirection direction => [.keyword "focus", .keyword direction]
  | .focusLevel level => [.keyword "focus", .keyword level]
  | .kill => [.keyword "kill"]
  | .killMode mode => [.keyword "kill", .keyword mode]
  | .mark name => [.keyword "mark", .quoted name]
  | .nop => [.keyword "nop"]
  | .nopComment comment => [.keyword "nop", .quoted comment]

/-- The pieces of a block of criteria. -/
def blockPieces (block : List Criterion) : List Piece :=
  .mark '[' :: block.flatMap Criterion.pieces ++ [.mark ']']

/-- The pieces of a command. -/
def Command.pieces (c : Command) : List Piece := c.blocks.flatMap blockPieces ++ c.order.pieces

/-- The character of a separator. -/
def Separator.char : Separator → Char
  | .comma => ','
  | .semicolon => ';'

/-- The pieces of a line in front of its end. -/
def Line.body (l : Line) : List Piece :=
  (l.joined.flatMap fun x => x.1.pieces ++ [.mark x.2.char]) ++ l.last.pieces

/-- The pieces of a line. -/
def Line.pieces (l : Line) : List Piece := l.body ++ [.theEnd]

/-- A text of a line: small letters, and a blank behind each piece. -/
def Line.print (l : Line) : String :=
  String.ofList (l.body.flatMap fun piece => piece.chars ++ [' '])

/-! ## What lines ask for -/

/-- The call of a criterion. -/
def Criterion.call (c : Criterion) : Call :=
  ⟨"cmd_criteria_add", [("ctype", c.name), ("cvalue", c.value)]⟩

/-- The call of an order. -/
def Order.call : Order → Call
  | .exit => ⟨"cmd_exit", []⟩
  | .restart => ⟨"cmd_restart", []⟩
  | .reload => ⟨"cmd_reload", []⟩
  | .fullscreen => ⟨"cmd_fullscreen", []⟩
  | .move direction => ⟨"cmd_move_direction", [("direction", direction)]⟩
  | .moveBy direction pixels _ => ⟨"cmd_move_direction", [("direction", direction), ("pixels", pixels)]⟩
  | .moveToNeighbour direction => ⟨"cmd_move_con_to_workspace", [("direction", direction)]⟩
  | .moveTo name => ⟨"cmd_move_con_to_workspace_name", [("workspace", name)]⟩
  | .exec command => ⟨"cmd_exec", [("command", command)]⟩
  | .execSilently command => ⟨"cmd_exec", [("nosn", "--no-startup-id"), ("command", command)]⟩
  | .border style => ⟨"cmd_border", [("border_style", style)]⟩
  | .neighbour direction => ⟨"cmd_workspace", [("direction", direction)]⟩
  | .backAndForth => ⟨"cmd_workspace_back_and_forth", []⟩
  | .workspace name => ⟨"cmd_workspace_name", [("workspace", name)]⟩
  | .focus => ⟨"cmd_focus", []⟩
  | .focusDirection direction => ⟨"cmd_focus_direction", [("direction", direction)]⟩
  | .focusLevel level => ⟨"cmd_focus_level", [("level", level)]⟩
  | .kill => ⟨"cmd_kill", []⟩
  | .killMode mode => ⟨"cmd_kill", [("kill_mode", mode)]⟩
  | .mark name => ⟨"cmd_mark", [("mark", name)]⟩
  | .nop => ⟨"cmd_nop", []⟩
  | .nopComment comment => ⟨"cmd_nop", [("comment", comment)]⟩

/-- The calls of a block: one for each criterion, and one that applies them. -/
def blockCalls (block : List Criterion) : List Call :=
  block.map Criterion.call ++ [⟨"cmd_criteria_match_windows", []⟩]

/-- The calls of a command. -/
def Command.calls (c : Command) : List Call := c.blocks.flatMap blockCalls ++ [c.order.call]

/-- The trace of a line. A comma does not complete a command. -/
def Line.trace (l : Line) : Trace where
  calls := (l.joined.flatMap fun x => x.1.calls) ++ l.last.calls
  boundaries := l.joined.countP (fun x => x.2 = .semicolon) + 1

/-! ## Following orders through the table -/

/-- Where a command starts. -/
def start : Spot := ⟨"INITIAL", []⟩

/-- What ends a command, with the number of boundaries there. -/
def stops : List (Piece × Nat) := [(.mark ',', 0), (.mark ';', 1), (.theEnd, 1)]

/-- At a spot a command may end, with these calls. -/
def Closes (spot : Spot) (calls : List Call) : Prop :=
  ∀ stop ∈ stops, grammar.step? 2 spot stop.1 = some (start, ⟨calls, stop.2⟩)

theorem Closes.of_stops {spot : Spot} {calls : List Call}
    (hcomma : grammar.step? 2 spot (.mark ',') = some (start, ⟨calls, 0⟩))
    (hsemicolon : grammar.step? 2 spot (.mark ';') = some (start, ⟨calls, 1⟩))
    (hend : grammar.step? 2 spot .theEnd = some (start, ⟨calls, 1⟩)) : Closes spot calls := by
  intro stop hstop
  simp only [stops, List.mem_cons, List.not_mem_nil, or_false] at hstop
  rcases hstop with rfl | rfl | rfl
  · exact hcomma
  · exact hsemicolon
  · exact hend

theorem closes_start : Closes start [] := .of_stops rfl rfl rfl

theorem closes_focus : Closes ⟨"FOCUS", []⟩ [⟨"cmd_focus", []⟩] := .of_stops rfl rfl rfl

theorem closes_kill : Closes ⟨"KILL", []⟩ [⟨"cmd_kill", []⟩] := .of_stops rfl rfl rfl

theorem closes_nop : Closes ⟨"NOP", []⟩ [⟨"cmd_nop", []⟩] := .of_stops rfl rfl rfl

/-- Captures that are held where a command ends are those of its call. -/
theorem closes_move (held : List (String × String)) :
    Closes ⟨"MOVE_DIRECTION", held⟩ [⟨"cmd_move_direction", held⟩] := .of_stops rfl rfl rfl

theorem closes_moveBy (held : List (String × String)) :
    Closes ⟨"MOVE_DIRECTION_PX", held⟩ [⟨"cmd_move_direction", held⟩] := .of_stops rfl rfl rfl

/-- Orders of one keyword lead back to the start, with their call. -/
theorem walk_keyword :
    ∀ x ∈ [("exit", "cmd_exit"), ("restart", "cmd_restart"), ("reload", "cmd_reload"),
        ("fullscreen", "cmd_fullscreen")],
      grammar.walk 2 start [.keyword x.1] = some (start, ⟨[⟨x.2, []⟩], 0⟩) := by
  decide +kernel

theorem walk_move : ∀ direction ∈ directions,
    grammar.walk 2 start [.keyword "move", .keyword direction]
      = some (⟨"MOVE_DIRECTION", [("direction", direction)]⟩, {}) := by
  decide +kernel

theorem walk_pixels (direction pixels : String) (unit : Bool) :
    grammar.walk 2 ⟨"MOVE_DIRECTION", [("direction", direction)]⟩
        (.quoted pixels :: if unit then [.keyword "px"] else [])
      = some (⟨"MOVE_DIRECTION_PX", [("direction", direction), ("pixels", pixels)]⟩, {}) := by
  cases unit <;> rfl

/-- An order that ends with a choice of one word. -/
structure Choice where
  front : List String
  action : String
  identifier : String
  words : List String
  deriving DecidableEq

/-- The orders that end with a choice and wait for nothing behind it. -/
def choices : List Choice :=
  [⟨["move", "workspace"], "cmd_move_con_to_workspace", "direction", ["next", "prev"]⟩,
    ⟨["border"], "cmd_border", "border_style", borderStyles⟩,
    ⟨["workspace"], "cmd_workspace", "direction", neighbours⟩,
    ⟨["focus"], "cmd_focus_direction", "direction", directions⟩,
    ⟨["focus"], "cmd_focus_level", "level", ["parent", "child"]⟩,
    ⟨["kill"], "cmd_kill", "kill_mode", ["window", "client"]⟩]

/-- Orders that end with a choice lead back to the start, with their call. -/
theorem walk_choice : ∀ x ∈ choices, ∀ word ∈ x.words,
    grammar.walk 2 start (x.front.map .keyword ++ [.keyword word])
      = some (start, ⟨[⟨x.action, [(x.identifier, word)]⟩], 0⟩) := by
  decide +kernel

/-- **An order leads to a spot where a command may end**; its call is made on the way or there. -/
theorem walk_order (order : Order) : ∃ spot calls last,
    grammar.walk 2 start order.pieces = some (spot, ⟨calls, 0⟩) ∧ Closes spot last
      ∧ calls ++ last = [order.call] := by
  cases order with
  | exit | restart | reload | fullscreen =>
    exact ⟨start, _, [], walk_keyword (_, _) (by decide), closes_start, rfl⟩
  | move direction =>
    exact ⟨_, [], _, walk_move direction direction.2, closes_move _, rfl⟩
  | moveBy direction pixels unit =>
    exact ⟨_, [], _, Table.walk_append (walk_move direction direction.2) (walk_pixels direction pixels unit),
      closes_moveBy _, rfl⟩
  | moveToNeighbour direction =>
    exact ⟨start, _, [], walk_choice ⟨["move", "workspace"], _, _, _⟩ (by decide) direction direction.2,
      closes_start, rfl⟩
  | moveTo name => exact ⟨start, _, [], rfl, closes_start, rfl⟩
  | exec command => exact ⟨start, _, [], rfl, closes_start, rfl⟩
  | execSilently command => exact ⟨start, _, [], rfl, closes_start, rfl⟩
  | border style =>
    exact ⟨start, _, [], walk_choice ⟨["border"], _, _, _⟩ (by decide) style style.2, closes_start, rfl⟩
  | neighbour direction =>
    exact ⟨start, _, [], walk_choice ⟨["workspace"], _, _, _⟩ (by decide) direction direction.2,
      closes_start, rfl⟩
  | backAndForth => exact ⟨start, _, [], rfl, closes_start, rfl⟩
  | workspace name => exact ⟨start, _, [], rfl, closes_start, rfl⟩
  | focus => exact ⟨⟨"FOCUS", []⟩, [], _, rfl, closes_focus, rfl⟩
  | focusDirection direction =>
    exact ⟨start, _, [], walk_choice ⟨["focus"], _, _, _⟩ (by decide) direction direction.2,
      closes_start, rfl⟩
  | focusLevel level =>
    exact ⟨start, _, [], walk_choice ⟨["focus"], _, _, _⟩ (by decide) level level.2, closes_start, rfl⟩
  | kill => exact ⟨⟨"KILL", []⟩, [], _, rfl, closes_kill, rfl⟩
  | killMode mode =>
    exact ⟨start, _, [], walk_choice ⟨["kill"], _, _, _⟩ (by decide) mode mode.2, closes_start, rfl⟩
  | mark name => exact ⟨start, _, [], rfl, closes_start, rfl⟩
  | nop => exact ⟨⟨"NOP", []⟩, [], _, rfl, closes_nop, rfl⟩
  | nopComment comment => exact ⟨start, _, [], rfl, closes_start, rfl⟩

/-! ## Following lines through the table -/

theorem step_name : ∀ name ∈ criteria,
    grammar.step? 2 ⟨"CRITERIA", []⟩ (.keyword name) = some (⟨"CRITERION", [("ctype", name)]⟩, {}) := by
  decide +kernel

theorem walk_value (name value : String) :
    grammar.walk 2 ⟨"CRITERION", [("ctype", name)]⟩ [.mark '=', .quoted value]
      = some (⟨"CRITERIA", []⟩, ⟨[⟨"cmd_criteria_add", [("ctype", name), ("cvalue", value)]⟩], 0⟩) :=
  rfl

theorem step_bracket : grammar.step? 2 start (.mark '[') = some (⟨"CRITERIA", []⟩, {}) := rfl

theorem walk_closingBracket : grammar.walk 2 ⟨"CRITERIA", []⟩ [.mark ']']
    = some (start, ⟨[⟨"cmd_criteria_match_windows", []⟩], 0⟩) := rfl

theorem walk_criterion (c : Criterion) :
    grammar.walk 2 ⟨"CRITERIA", []⟩ c.pieces = some (⟨"CRITERIA", []⟩, ⟨[c.call], 0⟩) :=
  Table.walk_of_step (step_name c.name c.name.2) (walk_value c.name c.value)

theorem walk_criteria (block : List Criterion) :
    grammar.walk 2 ⟨"CRITERIA", []⟩ (block.flatMap Criterion.pieces)
      = some (⟨"CRITERIA", []⟩, ⟨block.map Criterion.call, 0⟩) := by
  induction block with
  | nil => rfl
  | cons c block ih => exact Table.walk_append (walk_criterion c) ih

/-- **A block adds its criteria and applies them.** -/
theorem walk_block (block : List Criterion) :
    grammar.walk 2 start (blockPieces block) = some (start, ⟨blockCalls block, 0⟩) :=
  Table.walk_append (Table.walk_of_step step_bracket (walk_criteria block)) walk_closingBracket

theorem walk_blocks (blocks : List (List Criterion)) :
    grammar.walk 2 start (blocks.flatMap blockPieces) = some (start, ⟨blocks.flatMap blockCalls, 0⟩) := by
  induction blocks with
  | nil => rfl
  | cons block blocks ih => exact Table.walk_append (walk_block block) ih

/-- **A command and what ends it lead back to the start.** -/
theorem walk_command (c : Command) (stop : Piece × Nat) (hstop : stop ∈ stops) :
    grammar.walk 2 start (c.pieces ++ [stop.1]) = some (start, ⟨c.calls, stop.2⟩) := by
  obtain ⟨spot, calls, last, horder, hcloses, hcall⟩ := walk_order c.order
  have hlast : grammar.walk 2 spot [stop.1] = some (start, (⟨last, stop.2⟩ : Trace) ++ ({} : Trace)) :=
    Table.walk_of_step (hcloses stop hstop) rfl
  have hwalk := Table.walk_append (Table.walk_append (walk_blocks c.blocks) horder) hlast
  rw [Command.pieces, hwalk, Trace.append_empty, Command.calls, ← hcall]
  simp only [Trace.mk_append, Nat.zero_add, List.append_assoc]

/-- The commands in front of the last one. -/
theorem walk_joined (joined : List (Command × Separator)) :
    grammar.walk 2 start (joined.flatMap fun x => x.1.pieces ++ [.mark x.2.char])
      = some (start, ⟨joined.flatMap fun x => x.1.calls, joined.countP fun x => x.2 = .semicolon⟩) := by
  induction joined with
  | nil => rfl
  | cons x joined ih =>
    obtain ⟨c, separator⟩ := x
    cases separator with
    | comma =>
      refine (Table.walk_append (walk_command c (.mark ',', 0) (by decide)) ih).trans ?_
      rw [List.countP_cons_of_neg (by simp), List.flatMap_cons, Trace.mk_append, Nat.zero_add]
    | semicolon =>
      refine (Table.walk_append (walk_command c (.mark ';', 1) (by decide)) ih).trans ?_
      rw [List.countP_cons_of_pos (by simp), List.flatMap_cons, Trace.mk_append, Nat.add_comm 1]

/-- **A line leads back to the start, and leaves its trace.** -/
theorem walk_line (l : Line) : grammar.walk 2 start l.pieces = some (start, l.trace) := by
  have hwalk := Table.walk_append (walk_joined l.joined)
    (walk_command l.last (.theEnd, 1) (by decide))
  rwa [← List.append_assoc] at hwalk

/-! ## Writing lines -/

theorem plain_word {words : List String} (h : ∀ word ∈ words, Text.foldCase word.toList = word.toList)
    (word : OneOf words) : (Piece.keyword word).Plain := h word word.2

theorem plain_order (order : Order) : ∀ piece ∈ order.pieces, piece.Plain := by
  cases order <;> simp only [Order.pieces, List.forall_mem_append, List.forall_mem_cons, List.not_mem_nil,
    false_implies, implies_true, and_true]
  case exit | restart | reload | fullscreen | focus | kill | nop => exact rfl
  case backAndForth => exact ⟨rfl, rfl⟩
  case move word | border word | neighbour word | focusDirection word | focusLevel word | killMode word =>
    exact ⟨rfl, plain_word (by decide) word⟩
  case moveToNeighbour word => exact ⟨rfl, rfl, plain_word (by decide) word⟩
  case exec text | workspace text | mark text | nopComment text => exact ⟨rfl, text.2⟩
  case moveTo text | execSilently text => exact ⟨rfl, rfl, text.2⟩
  case moveBy direction pixels unit =>
    refine ⟨⟨rfl, plain_word (by decide) direction, pixels.2⟩, ?_⟩
    cases unit with
    | false => simp
    | true => exact List.forall_mem_singleton.mpr rfl

theorem plain_block (block : List Criterion) : ∀ piece ∈ blockPieces block, piece.Plain := by
  have hcriteria : ∀ piece ∈ block.flatMap Criterion.pieces, piece.Plain := by
    intro piece hpiece
    obtain ⟨c, -, hm⟩ := List.mem_flatMap.mp hpiece
    simp only [Criterion.pieces, List.mem_cons, List.not_mem_nil, or_false] at hm
    rcases hm with rfl | rfl | rfl
    · exact plain_word (by decide) c.name
    · trivial
    · exact c.value.2
  unfold blockPieces
  rw [List.cons_append, List.forall_mem_cons, List.forall_mem_append]
  exact ⟨trivial, hcriteria, List.forall_mem_singleton.mpr trivial⟩

theorem plain_command (c : Command) : ∀ piece ∈ c.pieces, piece.Plain := by
  unfold Command.pieces
  rw [List.forall_mem_append]
  refine ⟨fun piece hpiece => ?_, plain_order c.order⟩
  obtain ⟨block, -, hm⟩ := List.mem_flatMap.mp hpiece
  exact plain_block block piece hm

/-- **Every line can be written.** -/
theorem written_print (l : Line) : Written l.pieces l.print.toList := by
  have hbody : ∀ piece ∈ l.body, piece.Plain := by
    unfold Line.body
    rw [List.forall_mem_append]
    refine ⟨fun piece hpiece => ?_, plain_command l.last⟩
    obtain ⟨x, -, hm⟩ := List.mem_flatMap.mp hpiece
    rcases List.mem_append.mp hm with hm | hm
    · exact plain_command x.1 piece hm
    · rw [List.mem_singleton.mp hm]
      trivial
  rw [Line.print, String.toList_ofList]
  exact written_of_plain hbody

/-! ## Parsing lines -/

/-- **Writing a line and parsing it come back to what the line asks for**: with room for two captures every text
of the line is accepted, and leaves the trace of the line. -/
theorem parse_line (l : Line) {capacity : Int} (hcapacity : 2 ≤ capacity) :
    Written l.pieces l.print.toList ∧ ∀ text : String, Written l.pieces text.toList →
      (∃ o, ((Parser.limited grammar capacity none).parse text {}).verdict = .ok o ∧ o.ok = true)
        ∧ ((Parser.limited grammar capacity none).parse text {}).environment = l.trace := by
  refine ⟨written_print l, fun text hwritten => ?_⟩
  exact Parser.parse_written validate_grammar hcapacity (by omega) hwritten (walk_line l)

/-- A criterion with a bracket, a separator and a quote in its value, and two orders whose calls wait for their
ends. -/
def sample : Line where
  joined := [(⟨[[⟨⟨"class", by decide⟩, ⟨"a]; \\\"b", quotable_of_upToMark? rfl⟩⟩]], .kill⟩, .comma)]
  last := ⟨[], .move ⟨"left", by decide⟩⟩

/-- The sample in mixed case, with blanks only where there have to be some and where there need not be any. -/
theorem parse_line_sample :
    (2 : Int) ≤ 2
      ∧ Written sample.pieces "[Class=\"a]; \\\"b\"]KILL,Move\tLEFT ".toList
      ∧ ((Parser.limited grammar 2 none).parse "[Class=\"a]; \\\"b\"]KILL,Move\tLEFT " {}).environment
        = ⟨[⟨"cmd_criteria_add", [("ctype", "class"), ("cvalue", "a]; \\\"b")]⟩,
            ⟨"cmd_criteria_match_windows", []⟩, ⟨"cmd_kill", []⟩,
            ⟨"cmd_move_direction", [("direction", "left")]⟩], 1⟩ := by
  have hwritten : Written sample.pieces "[Class=\"a]; \\\"b\"]KILL,Move\tLEFT ".toList := by
    show Written _ (['['] ++ ("Class".toList ++ (['='] ++ ('"' :: "a]; \\\"b".toList ++ ['"'] ++ ([']']
      ++ ("KILL".toList ++ ([','] ++ ("Move".toList ++ ('\t' :: ("LEFT".toList ++ [' ']))))))))))
    have hmove : Written [.keyword "move", .keyword "left", .theEnd]
        ("Move".toList ++ ('\t' :: ("LEFT".toList ++ [' ']))) :=
      .next nofun (.keyword rfl (by simp; rfl)) (.blank rfl (.next nofun (.keyword rfl (by simp; rfl))
        (.blank rfl .theEnd)))
    exact .next nofun .mark (.next nofun (.keyword rfl (by simp; rfl)) (.next nofun .mark
      (.next nofun (.quoted (quotable_of_upToMark? rfl)) (.next nofun .mark
        (.next nofun (.keyword rfl (by simp; rfl)) (.next nofun .mark hmove))))))
  exact ⟨Int.le_refl 2, hwritten, ((parse_line sample (Int.le_refl 2)).2 _ hwritten).2⟩

end CommandGrammar.Window
