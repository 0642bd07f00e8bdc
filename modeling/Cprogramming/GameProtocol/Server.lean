import Mathlib.Data.List.Basic

/-!
# The rock-paper-scissors server

`rpsserver.c`: one thread for each connection, which registers a player, searches
an opponent, takes the result and leaves. A step of the model is one critical
section of a thread, or one of the assignments behind the last one. A pointer to a
player is the index of the player in the table, which is also its `id`.

The name and the port of a connection fit the arrays of a player. A write behind the
end of a table, and a read of `matches` with an index that it does not have, end the
run: the state is then `none`.
-/

namespace Cprogramming.GameProtocol.Server

set_option autoImplicit false

inductive Status where
  | waiting
  | playing
  | dead
deriving DecidableEq

/-- A string in one of the arrays `char[10]`. -/
abbrev Text := { bytes : List UInt8 // bytes.length ≤ 9 }

def noText : Text := ⟨[], by simp⟩

def letter (byte : UInt8) : Text := ⟨[byte], by simp⟩

/-- The fields of a player. `stats` counts won, lost and tied matches. -/
structure Player where
  name : Text
  port : Text
  status : Status
  matchId : Int
  enemy : Option Nat
  stats : Nat × Nat × Nat

inductive MatchStatus where
  | active
  | finish
deriving DecidableEq

structure Match where
  p1 : Nat
  p2 : Nat
  status : MatchStatus
  id : Int

/-- `playerInfo`. The first match has the number one; `matches[0]` is not used. -/
structure PlayerInfo where
  players : List Player
  active : Int
  matchList : List Match

def maxPlayers : Nat := 1000

def maxMatches : Nat := 500

def PlayerInfo.totalMatches (info : PlayerInfo) : Nat := info.matchList.length + 1

/-- `matches[id]`. -/
def PlayerInfo.matchAt (info : PlayerInfo) (id : Int) : Option Match :=
  if 1 ≤ id then info.matchList[(id - 1).toNat]? else none

/-- What `main` sets up. -/
def newInfo : PlayerInfo := ⟨[], 0, []⟩

/-! ## Registration -/

def newPlayer (name port : Text) : Player := ⟨name, port, .waiting, -1, none, (0, 0, 0)⟩

def lastNamed (info : PlayerInfo) (name : Text) : Option Nat :=
  ((List.range info.players.length).filter fun index =>
    (info.players[index]?).any fun player => decide (player.name = name)).getLast?

/-- The index of the player of the new connection; no index is an answer `BADNAME`. -/
def register (info : PlayerInfo) (name port : Text) : Option (PlayerInfo × Option Nat) :=
  if info.players.any fun player =>
      decide (player.name = name) && decide (player.status ≠ .dead) then some (info, none)
  else
    match lastNamed info name with
    | some previous =>
      some ({ info with players := info.players.modify previous fun player =>
        { player with status := .waiting, port := port } }, some previous)
    | none =>
      if info.players.length < maxPlayers then
        some (⟨info.players ++ [newPlayer name port], info.active + 1, info.matchList⟩,
          some info.players.length)
      else none

/-! ## Search -/

def Player.engage (player : Player) (id : Int) (enemy : Nat) : Player :=
  { player with status := .playing, matchId := id, enemy := some enemy }

def pairUp (info : PlayerInfo) (player found : Nat) : Option PlayerInfo :=
  let id := info.totalMatches
  if id < maxMatches then
    some {
      players := (info.players.modify player fun self => self.engage id found).modify found
        fun other => other.engage id player
      active := info.active - 2
      matchList := info.matchList ++ [⟨player, found, .active, id⟩] }
  else none

def waitingOther (info : PlayerInfo) (player index : Nat) : Bool :=
  decide (index ≠ player) &&
    (info.players[index]?).any fun other => decide (other.status = .waiting)

/-- One turn of the search. It goes on after an opponent has been found; the last
match is the one that the thread plays. -/
def visit (player : Nat) (state : PlayerInfo × Option Int) (index : Nat) :
    Option (PlayerInfo × Option Int) :=
  if waitingOther state.1 player index then
    (pairUp state.1 player index).map fun next => (next, some state.1.totalMatches)
  else some state

def scan (info : PlayerInfo) (player : Nat) : Option (PlayerInfo × Option Int) :=
  (List.range info.players.length).foldlM (visit player) (info, none)

def search (info : PlayerInfo) (player : Nat) : Option (PlayerInfo × Option Int) :=
  match info.players[player]? with
  | none => none
  | some self =>
    match self.enemy with
    | some _ => (info.matchAt self.matchId).map fun _ => (info, some self.matchId)
    | none => if 0 < info.active - 1 then scan info player else some (info, none)

/-! ## Result -/

def tie : List UInt8 := [84, 73, 69]

def score (player : Player) (winName : List UInt8) : Nat × Nat × Nat :=
  if player.name.val = winName then (player.stats.1 + 1, player.stats.2)
  else if winName = tie then (player.stats.1, player.stats.2.1, player.stats.2.2 + 1)
  else (player.stats.1, player.stats.2.1 + 1, player.stats.2.2)

/-- The player counts the result and gives up its match. -/
def result (info : PlayerInfo) (player : Nat) (id : Int) (winName : List UInt8) : PlayerInfo where
  players := info.players.modify player fun self =>
    { self with stats := score self winName, status := .dead }
  active := info.active + 1
  matchList := info.matchList.modify (id - 1).toNat fun game => { game with status := .finish }

def clearEnemy (info : PlayerInfo) (player : Nat) : PlayerInfo :=
  { info with players := info.players.modify player fun self => { self with enemy := none } }

def clearMatch (info : PlayerInfo) (player : Nat) : PlayerInfo :=
  { info with players := info.players.modify player fun self =>
    { self with matchId := -1, port := noText } }

/-! ## Threads -/

/-- Where a thread stands, with its local `player` and the number of its `match`. -/
inductive Phase where
  | connecting
  | searching (player : Nat)
  | playing (player : Nat) (id : Int)
  | clearing (player : Nat)
  | leaving (player : Nat)
  | closed

structure Thread where
  name : Text
  port : Text
  phase : Phase

structure World where
  info : PlayerInfo
  threads : List Thread

/-- The thread that runs next, and the name in the result that its client sends. -/
structure Action where
  thread : Nat
  winName : List UInt8

def World.moved (world : World) (index : Nat) (info : PlayerInfo) (phase : Phase) : World :=
  ⟨info, world.threads.modify index fun thread => { thread with phase := phase }⟩

def advance (world : World) (action : Action) (thread : Thread) : Option World :=
  match thread.phase with
  | .connecting =>
    (register world.info thread.name thread.port).map fun (info, found) =>
      world.moved action.thread info
        (match found with
          | some player => .searching player
          | none => .closed)
  | .searching player =>
    (search world.info player).map fun (info, found) =>
      world.moved action.thread info
        (match found with
          | some id => .playing player id
          | none => .searching player)
  | .playing player id =>
    some (world.moved action.thread (result world.info player id action.winName) (.clearing player))
  | .clearing player =>
    some (world.moved action.thread (clearEnemy world.info player) (.leaving player))
  | .leaving player =>
    some (world.moved action.thread (clearMatch world.info player) .closed)
  | .closed => some world

def step (world : Option World) (action : Action) : Option World :=
  world.bind fun world =>
    match world.threads[action.thread]? with
    | some thread => advance world action thread
    | none => some world

def start (connections : List (Text × Text)) : World :=
  ⟨newInfo, connections.map fun (name, port) => ⟨name, port, .connecting⟩⟩

end Cprogramming.GameProtocol.Server
