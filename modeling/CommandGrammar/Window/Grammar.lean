import CommandGrammar.Table

/-!
# The language of a window manager

The built-in table: a subset of the commands that tiling window managers take on key bindings and
over IPC, for instance

    [class="Firefox" title="Mail"] move workspace 2; workspace next, kill

Criteria in brackets are handed on pair by pair, and the closing bracket applies them.
-/

namespace CommandGrammar.Window

/-- The directions in which to move and to focus. -/
def directions : List String := ["left", "right", "up", "down"]

/-- What a criterion may ask for. -/
def criteria : List String :=
  ["class", "instance", "window_role", "con_id", "id", "con_mark", "title"]

/-- The actions; each is known by its place in the list. -/
def actions : List String :=
  ["cmd_exit", "cmd_restart", "cmd_reload", "cmd_fullscreen", "cmd_criteria_match_windows",
    "cmd_criteria_add", "cmd_move_direction", "cmd_move_con_to_workspace",
    "cmd_move_con_to_workspace_name", "cmd_exec", "cmd_border", "cmd_workspace",
    "cmd_workspace_back_and_forth", "cmd_workspace_name", "cmd_focus_direction",
    "cmd_focus_level", "cmd_focus", "cmd_kill", "cmd_mark", "cmd_nop"]

/-- The call of an action. -/
def call (name : String) (next : Option StateName := none) : Transition :=
  .invoke (actions.idxOf name) next

/-- A literal for each keyword, with one transition and one identifier. -/
def keywords (texts : List String) (transition : Transition) (capture : Option String := none) :
    List Token :=
  texts.map fun text => .literal text transition capture

/-- The states with their tokens. -/
def states : List (StateName × List Token) :=
  [ ("INITIAL",
      [ .commandEnd (.goto "INITIAL"),
        .literal "[" (.goto "CRITERIA"),
        .literal "move" (.goto "MOVE"),
        .literal "exec" (.goto "EXEC"),
        .literal "exit" (call "cmd_exit"),
        .literal "restart" (call "cmd_restart"),
        .literal "reload" (call "cmd_reload"),
        .literal "border" (.goto "BORDER"),
        .literal "workspace" (.goto "WORKSPACE"),
        .literal "focus" (.goto "FOCUS"),
        .literal "kill" (.goto "KILL"),
        .literal "fullscreen" (call "cmd_fullscreen"),
        .literal "mark" (.goto "MARK"),
        .literal "nop" (.goto "NOP") ]),
    ("CRITERIA",
      keywords criteria (.goto "CRITERION") (some "ctype")
        ++ [.literal "]" (call "cmd_criteria_match_windows")]),
    ("CRITERION", [.literal "=" (.goto "CRITERION_STR")]),
    ("CRITERION_STR", [.word (call "cmd_criteria_add" (some "CRITERIA")) (some "cvalue")]),
    ("MOVE",
      keywords ["window", "container"] (.goto "MOVE")
        ++ keywords directions (.goto "MOVE_DIRECTION") (some "direction")
        ++ [.literal "workspace" (.goto "MOVE_WORKSPACE")]),
    ("MOVE_DIRECTION",
      [ .word (.goto "MOVE_DIRECTION_PX") (some "pixels"),
        .commandEnd (call "cmd_move_direction") ]),
    ("MOVE_DIRECTION_PX",
      [ .literal "px" (.goto "MOVE_DIRECTION_PX"),
        .commandEnd (call "cmd_move_direction") ]),
    ("MOVE_WORKSPACE",
      keywords ["next", "prev"] (call "cmd_move_con_to_workspace") (some "direction")
        ++ [.string (call "cmd_move_con_to_workspace_name") (some "workspace")]),
    ("EXEC",
      [ .literal "--no-startup-id" (.goto "EXEC_COMMAND") (some "nosn"),
        .string (call "cmd_exec") (some "command") ]),
    ("EXEC_COMMAND", [.string (call "cmd_exec") (some "command")]),
    ("BORDER",
      keywords ["normal", "none", "1pixel", "toggle"] (call "cmd_border") (some "border_style")),
    ("WORKSPACE",
      keywords ["next_on_output", "prev_on_output", "next", "prev"] (call "cmd_workspace")
          (some "direction")
        ++ [ .literal "back_and_forth" (call "cmd_workspace_back_and_forth"),
             .string (call "cmd_workspace_name") (some "workspace") ]),
    ("FOCUS",
      keywords directions (call "cmd_focus_direction") (some "direction")
        ++ keywords ["parent", "child"] (call "cmd_focus_level") (some "level")
        ++ [.commandEnd (call "cmd_focus")]),
    ("KILL",
      keywords ["window", "client"] (call "cmd_kill") (some "kill_mode")
        ++ [.commandEnd (call "cmd_kill")]),
    ("MARK", [.string (call "cmd_mark") (some "mark")]),
    ("NOP",
      [ .string (call "cmd_nop") (some "comment"),
        .commandEnd (call "cmd_nop") ]) ]

/-- The table of the window language. -/
def grammar : Table :=
  { states := .ofList states
    actions := .ofList (actions.zipIdx.map fun (name, i) => ((i : Int), name)) }

end CommandGrammar.Window
