import Mathlib.Data.List.DropRight
import Mathlib.Logic.Function.Basic
import NetCore.Lib.LinkedMap
import NetCore.Lib.Run

/-!
# `VpnConfig`: the control rules

Which applications, domains and addresses go through the proxy or into the capture is kept in three
maps, and in the preferences as one string for each map.  A Java string is the list of its
characters.  Of the settings only the three strings are modelled; the listeners and the settings
passed on to the native core are left out.
-/

namespace NetCore

abbrev JString := List Char

inductive CtrlType where
  | app
  | domain
  | ip
deriving DecidableEq

inductive AvailCtrls where
  | base
  | proxy
  | capture
  | proxyCapture
deriving DecidableEq

def ctrlBASE : Int := 1
def ctrlPROXYBit : Int := 2
def ctrlCAPTUREBit : Int := 8

def AvailCtrls.ctrls : AvailCtrls → Int
  | .base => ctrlBASE
  | .proxy => ctrlBASE + ctrlPROXYBit
  | .capture => ctrlBASE + ctrlCAPTUREBit
  | .proxyCapture => ctrlBASE + ctrlPROXYBit + ctrlCAPTUREBit

abbrev CtrlMap := Lib.LinkedMap JString Int

namespace VpnConfig

/-! ## What the Java library does -/

/-- `s.split(Pattern.quote(sep))`: without the empty strings at the end; a string without `sep` is
    the only piece of itself. -/
def split (sep : Char) (s : JString) : List JString :=
  if sep ∈ s then (s.splitOn sep).rdropWhile (· = []) else [s]

/-- The code points of the zeros that `Character.digit` knows in the first plane; nine more digits
    follow each of them. -/
def decimalZeros : List Nat :=
  [0x0030, 0x0660, 0x06F0, 0x07C0, 0x0966, 0x09E6, 0x0A66, 0x0AE6, 0x0B66, 0x0BE6, 0x0C66, 0x0CE6,
    0x0D66, 0x0DE6, 0x0E50, 0x0ED0, 0x0F20, 0x1040, 0x1090, 0x17E0, 0x1810, 0x1946, 0x19D0, 0x1A80,
    0x1A90, 0x1B50, 0x1BB0, 0x1C40, 0x1C50, 0xA620, 0xA8D0, 0xA900, 0xA9D0, 0xA9F0, 0xAA50, 0xABF0,
    0xFF10]

def digit (c : Char) : Option Nat :=
  (decimalZeros.find? fun z => z ≤ c.toNat ∧ c.toNat < z + 10).map fun z => c.toNat - z

def digits : JString → Option Nat
  | [] => none
  | s => s.foldlM (fun n c => (digit c).map fun d => 10 * n + d) 0

/-- `Integer.valueOf`; `none` for a `NumberFormatException`. -/
def integerValueOf (s : JString) : Option Int :=
  let value : Option Int :=
    match s with
    | '-' :: s => (digits s).map fun n => -(n : Int)
    | '+' :: s => (digits s).map fun n => (n : Int)
    | s => (digits s).map fun n => (n : Int)
  value.filter fun n => -2147483648 ≤ n ∧ n ≤ 2147483647

/-! ## The source -/

def parseCtrl (result : CtrlMap) (s : JString) : CtrlMap :=
  match split ':' s with
  | key :: value :: _ =>
      match integerValueOf value with
      | some value => result.put key value
      | none => result
  | _ => result

def parseCtrls (result : CtrlMap) (value : JString) : CtrlMap :=
  if value = [] then result else (split ';' value).foldl parseCtrl result

/-- What `serializeCtrls` appends for an entry. -/
def serializeCtrl (entry : JString × Int) : JString :=
  entry.1 ++ [':'] ++ (toString entry.2).toList ++ [';']

def serializeCtrls (ctrls : CtrlMap) : JString := ctrls.entries.flatMap serializeCtrl

/-- What `updateCtrl` does to its map: the map, and whether it is to be saved. -/
def updateMap (target : JString) (ctrl : Option AvailCtrls) (ctrls : CtrlMap) : CtrlMap × Bool :=
  match ctrls.get target, ctrl with
  | some _, none => (ctrls.remove target, true)
  | some o, some ctrl => if o ≠ ctrl.ctrls then (ctrls.put target ctrl.ctrls, true) else (ctrls, false)
  | none, some ctrl => (ctrls.put target ctrl.ctrls, true)
  | none, none => (ctrls, false)

/-- The arguments of a call of `updateCtrl`; `none` is `null`. -/
structure Update where
  type : Option CtrlType
  target : Option JString
  ctrl : Option AvailCtrls

def Update.apply (type : CtrlType) (ctrls : CtrlMap) (u : Update) : CtrlMap × Bool :=
  match u.target with
  | some target => if u.type = some type then updateMap target u.ctrl ctrls else (ctrls, false)
  | none => (ctrls, false)

def updated (type : CtrlType) (ctrls : CtrlMap) (us : List Update) : CtrlMap :=
  us.foldl (fun ctrls u => (u.apply type ctrls).1) ctrls

/-! ## Loading and saving -/

/-- What `BackgroundThread` runs; a task for one of the three strings is named by its map. -/
inductive Task where
  | loadConfig
  | saveConfig (type : CtrlType) (value : JString)
deriving DecidableEq

inductive Posted where
  | onConfigLoadSucc
  | onConfigSaveSucc (type : CtrlType) (value : JString)
deriving DecidableEq

end VpnConfig

structure VpnConfig where
  /-- `sPackageCtrls`, `sDomainCtrls`, `sIPCtrls`. -/
  ctrls : CtrlType → CtrlMap
  sConfigs : CtrlType → Option JString
  /-- The strings in the preferences; one that was never stored reads as the empty default. -/
  sSP : CtrlType → JString
  background : List VpnConfig.Task
  main : List VpnConfig.Posted

namespace VpnConfig

def updateCtrl (u : Update) (s : VpnConfig) : VpnConfig :=
  match u.type with
  | none => s
  | some type =>
      let r := u.apply type (s.ctrls type)
      { s with
        ctrls := Function.update s.ctrls type r.1
        background :=
          if r.2 then s.background ++ [.saveConfig type (serializeCtrls r.1)] else s.background }

def runTask (s : VpnConfig) : Task → VpnConfig
  | .loadConfig =>
      { s with
        sConfigs := fun type => some (s.sSP type)
        main := s.main ++ [.onConfigLoadSucc] }
  | .saveConfig type value =>
      { s with
        sSP := Function.update s.sSP type value
        main := s.main ++ [.onConfigSaveSucc type value] }

def runPosted (s : VpnConfig) : Posted → VpnConfig
  | .onConfigLoadSucc =>
      { s with ctrls := fun type => parseCtrls .empty ((s.sConfigs type).getD []) }
  | .onConfigSaveSucc _ _ => s

inductive Event where
  | updateCtrl (u : Update)
  /-- The background thread runs its next task. -/
  | background
  /-- The main thread runs what was posted first. -/
  | main

-- `none`: there is nothing to run.
def step (s : VpnConfig) : Event → Option VpnConfig
  | .updateCtrl u => some (s.updateCtrl u)
  | .background =>
      match s.background with
      | [] => none
      | task :: rest => some (runTask { s with background := rest } task)
  | .main =>
      match s.main with
      | [] => none
      | posted :: rest => some (runPosted { s with main := rest } posted)

end VpnConfig

end NetCore
