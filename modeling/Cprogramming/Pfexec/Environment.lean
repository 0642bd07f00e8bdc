import Cprogramming.Library.OrderedTree
import Cprogramming.Pfexec.Rules

/-!
# The environment pfexecd prepares

`env.c` of the daemon: a tree of names and values with a node count, filled from
the rule, the target's passwd entry and the caller's environment, and flattened
to `name=value` strings in name order. Allocation failures, which end the
daemon, are not modelled.
-/

namespace Cprogramming.Pfexec.Environment

open Library.CStrings Library.OrderedTree
open Protocol Rules

set_option autoImplicit false

structure EnvNode where
  key : CString
  value : CString
deriving DecidableEq

structure Env where
  root : List EnvNode
  count : Nat

def envcmp (left right : EnvNode) : Int := strcmp left.key.bytes right.key.bytes

def equalsSign : UInt8 := 61
def minusSign : UInt8 := 45
def dollarSign : UInt8 := 36

/-- The longest name `char name[1024]` holds. -/
def nameMax : Nat := 1023

/-- One round of `find_in_env`: the text after `name=`, if the entry starts so. -/
def entryValue (name : List UInt8) (entry : CString) : Option CString :=
  if (name ++ [equalsSign]).isPrefixOf entry.bytes then
    some ⟨entry.bytes.drop (name.length + 1), by
      intro member
      exact entry.nulFree (List.mem_of_mem_drop member)⟩
  else none

def findInEnv (name : List UInt8) (myEnv : List CString) : Option CString :=
  myEnv.findSome? (entryValue name)

def getMyEnv (name : CString) (myEnv : List CString) : Option CString :=
  findInEnv (name.before equalsSign).bytes myEnv

/-- The count grows also when the tree has the key already. -/
def addnode (env : Env) (key value : CString) : Env where
  root := (rbInsert envcmp ⟨key, value⟩ env.root).getD env.root
  count := env.count + 1

/-- An insertion that frees a duplicate instead of counting it. -/
def addUnlessPresent (env : Env) (key value : CString) : Env :=
  match rbInsert envcmp ⟨key, value⟩ env.root with
  | some root => ⟨root, env.count + 1⟩
  | none => env

/-- "delete previous copies" -/
def deleteKey (env : Env) (key : CString) : Env :=
  match rbFind envcmp ⟨key, ⟨[], by simp⟩⟩ env.root with
  | some node => ⟨rbRemove envcmp node env.root, env.count - 1⟩
  | none => env

/-- The value an entry of a setenv list gives: literal, another variable after
`$`, or the caller's own without `=`. -/
def assignedValue (entry : CString) (myEnv : List CString) : Option CString :=
  match entry.after equalsSign with
  | some value =>
    if value.bytes.head? = some dollarSign then getMyEnv value.tail myEnv else some value
  | none => getMyEnv (entry.before equalsSign) myEnv

/-- One iteration of `fillenv`. -/
def fillenvEntry (myEnv : List CString) (env : Env) (entry : CString) : Env :=
  let name := entry.before equalsSign
  let removes := name.bytes.head? = some minusSign
  if nameMax < name.bytes.length then env
  else if removes then deleteKey env name.tail
  else
    match assignedValue entry myEnv with
    | some value => addnode (deleteKey env name) name value
    | none => deleteKey env name

def fillenv (env : Env) (envlist myEnv : List CString) : Env :=
  envlist.foldl (fillenvEntry myEnv) env

def copyset : List CString := ["DISPLAY", "TERM"].map CString.ofString

def safepath : CString :=
  CString.ofString "/bin:/sbin:/usr/bin:/usr/sbin:/usr/local/bin:/usr/local/sbin"

/-- One iteration of the `KEEPENV` loop; invalid and overlong names are ignored. -/
def keepEntry (env : Env) (entry : CString) : Env :=
  let name := entry.before equalsSign
  match entry.after equalsSign with
  | none => env
  | some value =>
    if name.bytes = [] then env
    else if nameMax < name.bytes.length then env
    else addUnlessPresent env name value

def createenv (rule : Rule) (targpw : Passwd) (myEnv : List CString) : Env :=
  let env := addnode ⟨[], 0⟩ (CString.ofString "PFEXEC_USER") rule.ident
  let env := addnode env (CString.ofString "HOME") targpw.pwDir
  let env := addnode env (CString.ofString "LOGNAME") targpw.pwName
  let env := addnode env (CString.ofString "USER") targpw.pwName
  let env := addnode env (CString.ofString "SHELL") targpw.pwShell
  let env := fillenv env copyset myEnv
  let env := if hasBit rule.options keepenv then myEnv.foldl keepEntry env else env
  addUnlessPresent env (CString.ofString "SHELL") safepath

def flattenenv (env : Env) : List CString :=
  env.root.map fun node => (node.key.append (CString.ofBytes [equalsSign])).append node.value

def prepenv (rule : Rule) (targpw : Passwd) (myEnv : List CString) : List CString :=
  let env := createenv rule targpw myEnv
  match rule.envlist with
  | some envlist => flattenenv (fillenv env envlist myEnv)
  | none => flattenenv env

end Cprogramming.Pfexec.Environment
