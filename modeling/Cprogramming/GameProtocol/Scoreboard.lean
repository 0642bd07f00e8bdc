import Cprogramming.GameProtocol.Server
import Cprogramming.Library.CStrings
import Cprogramming.Library.Decimals
import Cprogramming.Library.ExchangeSort
import Mathlib.Data.List.Lex

/-!
# The scoreboard of the server

`handler` of `rpsserver.c`: the signal handler copies the pointers of the table into
`arr`, sorts them by name and writes one line for each player. Every block is written
with its NUL.
-/

namespace Cprogramming.GameProtocol.Scoreboard

open Cprogramming.GameProtocol.Server
open Cprogramming.Library.CStrings
open Cprogramming.Library.Decimals
open Cprogramming.Library.ExchangeSort

set_option autoImplicit false

def compareNames (left right : Player) : Int := strcmp left.name.val right.name.val

/-- `arr` behind the two loops; it has room for 1000 pointers. -/
def sortedPlayers (info : PlayerInfo) : Option (List Player) :=
  if info.players.length ≤ maxPlayers then some (exchangeSort compareNames info.players) else none

/-- What `snprintf` leaves in `output`: at most 98 bytes. -/
def playerLine (player : Player) : List UInt8 :=
  (player.name.val ++ 32 :: printDecimal player.stats.1 ++ 32 :: printDecimal player.stats.2.1 ++
    32 :: printDecimal player.stats.2.2 ++ [10]).take 98

def handler (info : PlayerInfo) : Option (List UInt8) :=
  (sortedPlayers info).map fun arr =>
    (arr.flatMap fun player => playerLine player ++ [0]) ++ [45, 45, 45, 10, 0]

def HasName (player : Player) : Prop := (0 : UInt8) ∉ player.name.val

theorem compare_names_order (left right : Player) (leftName : HasName left)
    (rightName : HasName right) : 0 < compareNames left right ↔
      right.name.val.map UInt8.toNat < left.name.val.map UInt8.toNat := by
  have order := strcmp_neg_iff ⟨right.name.val, rightName⟩ ⟨left.name.val, leftName⟩
  rw [compareNames, strcmp_swap, ← order]
  exact Int.neg_pos

/-- The lines of the players come in the order of their names, and equal names in the
order of the table. -/
theorem handler_sorted (info : PlayerInfo) (room : info.players.length ≤ 1000)
    (names : ∀ player ∈ info.players, HasName player) : ∃ arr, sortedPlayers info = some arr ∧
      handler info = some ((arr.flatMap fun player => playerLine player ++ [0]) ++
        [45, 45, 45, 10, 0]) ∧ arr.Perm info.players ∧
      arr.Pairwise (fun left right => strcmp left.name.val right.name.val ≤ 0) ∧
      ∀ name, (arr.filter fun player => player.name = name) =
        info.players.filter fun player => player.name = name := by
  have sorted : sortedPlayers info = some (exchangeSort compareNames info.players) := if_pos room
  refine ⟨exchangeSort compareNames info.players, sorted, by rw [handler, sorted]; rfl,
    exchange_sort_perm compareNames info.players,
    exchange_sort_sorted compareNames (fun player => player.name.val.map UInt8.toNat) HasName
      compare_names_order info.players names, ?_⟩
  intro name
  apply exchange_sort_filter
  intro left right leftName rightName
  rw [compareNames, of_decide_eq_true leftName, of_decide_eq_true rightName]
  exact le_of_eq (strcmp_self name.val)

/-- Two names out of order, and two players of one name. -/
def threePlayers : PlayerInfo :=
  ⟨[newPlayer (letter 98) (letter 49), newPlayer (letter 97) (letter 50),
    newPlayer (letter 98) (letter 51)], 3, []⟩

theorem handler_sorted_three : threePlayers.players.length ≤ 1000 ∧
    ∃ arr, sortedPlayers threePlayers = some arr ∧
      handler threePlayers = some ((arr.flatMap fun player => playerLine player ++ [0]) ++
        [45, 45, 45, 10, 0]) ∧ arr.Perm threePlayers.players ∧
      arr.Pairwise (fun left right => strcmp left.name.val right.name.val ≤ 0) ∧
      ∀ name, (arr.filter fun player => player.name = name) =
        threePlayers.players.filter fun player => player.name = name := by
  refine ⟨by decide, handler_sorted threePlayers (by decide) ?_⟩
  intro player member
  simp only [threePlayers, List.mem_cons, List.not_mem_nil, or_false] at member
  rcases member with rfl | rfl | rfl <;> simp [HasName, newPlayer, letter]

end Cprogramming.GameProtocol.Scoreboard
