import FCache.ClientPlans
import FCache.KvApiRefinement
import FCache.ListApiRefinement

/-!
# The commands of the API

Each call of the Python API is at most one command: its checks come first, then the command, and
what it returns is read from the reply alone.
-/

namespace FCache

open Client

variable {F A : Type}

namespace KV

variable (w : FlexWriter F A)

theorem loadsDict_local (kv : FlexBuffer) : Local (loadsDict kv) := by
  unfold loadsDict
  split
  · exact .pure _
  · exact .throw _

def logErrorsPlan {m : Client PyResult} (p : Plan m) : Plan (logErrors m) :=
  p.post (fun r => .ok (r.toOption.getD .none)) (call_logErrors m)

def doSetAddPlan (kv : PyDict (PyValue F A)) (requestType : BodyType) (group : Option String) :
    Plan (doSetAdd w kv requestType group) :=
  .bind (.raiseIf _ _) fun _ => .bind (.ofExcept _) fun entries =>
    match writeBody requestType { kv := entries, group := groupField group } with
    | some _ => .andThen (.sendCmd _ requestType false) fun _ => .pure _
    | none => .here (.throw _)

theorem doGet_local (singleKey : Option String) (rsp : Response) :
    Local (match rsp.body with
      | some (.kvGet kv) => do
        let result ← loadsDict kv
        match singleKey with
        | some key =>
          match result.lookup (encode key) with
          | some x => return .value x
          | none => return .none
        | none => return .dict result
      | _ => throw .noBody : Client PyResult) := by
  split
  · refine .bind (loadsDict_local _) fun result => ?_
    split
    · split
      · exact .pure _
      · exact .pure _
    · exact .pure _
  · exact .throw _

def doGetPlan (key : Option String) (keys : Option (List String)) (group : Option String) :
    Plan (doGet key keys group) :=
  let get (keysField : Option (List Bytes)) :=
    Plan.andThen (.sendCmd (.kv (some (.get { keys := keysField, group := groupField group })))
      .kvGet false) (doGet_local (key.filter fun key => key ≠ ""))
  .bind (.raiseIf _ _) fun _ => logErrorsPlan <|
    match ((key.filter fun key => key ≠ "").map fun key => [key]).or keys with
    | some _ => .bind (.pure _) get
    | none => .ite (.bind (.pure _) get) (.bind (.throw _) get)

def getPlan (key : Option String) (keys : List String) (group : Option String) :
    Plan (get key keys group) :=
  .bind (.raiseIf _ _) fun _ => .bind (.raiseIf _ _) fun _ => doGetPlan key (some keys) group

def removePlan (key : Option String) (keys : List String) (group : Option String) :
    Plan (remove key keys group) :=
  .bind (.raiseIf _ _) fun _ => .bind (.raiseIf _ _) fun _ => logErrorsPlan <|
    .andThen (.sendCmd _ .kvRmv false) fun _ => .pure _

def countPlan (group : Option String) : Plan (count group) :=
  .andThen (.sendCmd _ .kvCount false) fun _ => by
    split
    · exact .pure _
    · exact .throw _

def containsPlan (keys : List String) (group : Option String) : Plan (contains keys group) :=
  .bind (.raiseIf _ _) fun _ => logErrorsPlan <| .andThen (.sendCmd _ .kvContains false) fun _ => by
    split
    · exact .pure _
    · exact .bind (loadsDict_local _) fun _ => .pure _
    · exact .throw _

def doClearPlan (op : ClearOperation) (group : Option String) : Plan (doClear op group) :=
  let clear := Plan.andThen (.sendCmd (.kv (some (.clear { op, group := groupField group })))
    .kvClear false) fun _ => .pure PyResult.none
  .ite (.bind (.raiseIf _ _) fun _ => clear) clear

def plan : (c : Call F A) → Plan (perform w c)
  | .set kv group => doSetAddPlan w kv .kvSet group
  | .setKey _ _ group => doSetAddPlan w _ .kvSet group
  | .add kv group => doSetAddPlan w kv .kvAdd group
  | .clearSet kv group => doSetAddPlan w kv .kvClearSet group
  | .get key keys group => getPlan key keys group
  | .getAll group => .bind (.raiseIf _ _) fun _ => doGetPlan none none (some group)
  | .getKey key group => .bind (.raiseIf _ _) fun _ => doGetPlan (some key) none group
  | .getKeys keys group => .bind (.raiseIf _ _) fun _ => doGetPlan none (some keys) group
  | .remove key keys group => removePlan key keys group
  | .count group => countPlan group
  | .contains keys group => containsPlan keys group
  | .clear | .clearAll => doClearPlan .all none
  | .clearGroup name deleteGroup =>
    doClearPlan (if deleteGroup then .group else .groupKeysOnly) name
  | .clearGroups deleteGroups =>
    doClearPlan (if deleteGroups then .groups else .groupsKeysOnly) none

end KV

namespace ListApi

open UnsortedList

variable (w : ListWriter F A)

theorem int32_local (x : ℤ) : Local (int32 x) := by
  unfold int32
  split
  · exact .pure _
  · exact .throw _

theorem int64_local (x : ℤ) : Local (int64 x) := by
  unfold int64
  split
  · exact .pure _
  · exact .throw _

theorem range_local (start : ℤ) (stop : Option ℤ) : Local (range start stop) :=
  .bind (int32_local _) fun _ => .bind (int32_local _) fun _ => .pure _

theorem itemsVector_local (items : List (PyValue F A)) : Local (itemsVector w items) :=
  .bind (.raiseIf _ _) fun _ => .ofExcept _

theorem valueOf_local (val : PyValue F A) : Local (valueOf w val) := by
  cases val with
  | str s => exact .pure _
  | int i => exact .map _ (int64_local i)
  | bool b => exact .map _ (int64_local b.toNat)
  | float x => exact .map _ (.ofExcept _)
  | none | bytes | array | list => exact .throw _

theorem loads_local (items : FlexBuffer) : Local (loads items) := by
  unfold loads
  split
  · exact .pure _
  · exact .throw _

def createListPlan (name : Bytes) (type : String) (isSorted failOnDuplicate : Bool) :
    Plan (createList name type isSorted failOnDuplicate) := by
  unfold createList
  exact match listTypeOf type with
    | none => .here (.throw _)
    | some _ => .andThen (.sendCmd _ .listCreate _) fun _ => .pure _

def deletePlan (names : List String) : Plan (delete names) :=
  .andThen (.sendCmd _ .listDelete false) fun _ => .pure _

def doGetRangePlan (name : Bytes) (base : Base) (start : ℤ) (stop : Option ℤ) :
    Plan (doGetRange name base start stop) :=
  .bind (.raiseIf _ _) fun _ => .bind (range_local _ _) fun _ =>
    .andThen (.sendCmd _ .listGetRange false) fun _ => by
      split
      · exact loads_local _
      · exact .throw _

def getRangePlan (name : String) (base : Base) (start : ℤ) (stop : Option ℤ) :
    Plan (getRange name base start stop) :=
  .ite (.here (.pure _)) (doGetRangePlan _ base start stop)

def removePlan (name : Bytes) (start : ℤ) (stop : Option ℤ) : Plan (remove name start stop) :=
  .bind (.raiseIf _ _) fun _ => .bind (.raiseIf _ _) fun _ => .bind (range_local _ _) fun _ =>
    .andThen (.sendCmd _ .listRemove false) fun _ => .pure _

def removeIfEqPlan (name : String) (start : ℤ) (stop : Option ℤ) (val : PyValue F A) :
    Plan (removeIfEq w name start stop val) :=
  .bind (.raiseIf _ _) fun _ => .bind (valueOf_local w val) fun _ =>
    .bind (range_local _ _) fun _ => .andThen (.sendCmd _ .listRemoveIf false) fun _ => by
      split
      · exact .pure _
      · exact .throw _

def infoPlan (name : Bytes) : Plan (info name) :=
  .bind (.raiseIf _ _) fun _ => .andThen (.sendCmd _ .listInfo false) fun _ => by
    split
    · exact .pure _
    · exact .throw _

def addPlan (name : String) (items : List (PyValue F A)) (pos : ℤ) (itemsSorted : Bool) :
    Plan (add w name items pos itemsSorted) :=
  .bind (itemsVector_local w items) fun _ => .bind (.raiseIf _ _) fun _ =>
    .bind (int32_local _) fun _ => .andThen (.sendCmd _ .listAdd false) fun _ => by
      split
      · exact .pure _
      · exact .throw _

def addTailPlan (name : String) (items : List (PyValue F A)) : Plan (addTail w name items) :=
  .bind (itemsVector_local w items) fun _ => .bind (.raiseIf _ _) fun _ =>
    .andThen (.sendCmd _ .listAppend false) fun _ => by
      split
      · exact .pure _
      · exact .throw _

def setPlan (name : String) (items : List (PyValue F A)) (pos : ℤ) : Plan (set w name items pos) :=
  .bind (itemsVector_local w items) fun _ => .bind (int32_local _) fun _ =>
    .andThen (.sendCmd _ .listSet false) fun _ => .pure _

def intersectPlan (list1 list2 : String) (l1Start : ℤ) (l1Stop : Option ℤ) (l2Start : ℤ)
    (l2Stop : Option ℤ) (newListName : Option String) :
    Plan (intersect list1 list2 l1Start l1Stop l2Start l2Stop newListName) :=
  .bind (.raiseIf _ _) fun _ => .bind (.raiseIf _ _) fun _ => .bind (range_local _ _) fun _ =>
    .bind (range_local _ _) fun _ => .andThen (.sendCmd _ .listIntersect false) fun _ => by
      split
      · exact .pure _
      · split
        · exact .bind (loads_local _) fun _ => .pure _
        · exact .throw _

def plan : (c : Call F A) → Plan (perform w c)
  | .create sorted _ type failOnDuplicate => .map _ (createListPlan _ type sorted failOnDuplicate)
  | .delete names => .map _ (deletePlan names)
  | .deleteAll => .map _ (deletePlan [])
  | .getHead _ => .map _ (.andThen (doGetRangePlan _ .head 0 _) fun _ => .pure _)
  | .getTail _ => .map _ (.andThen (doGetRangePlan _ .tail 0 _) fun _ => .pure _)
  | .getN _ start _ => .map _ (doGetRangePlan _ .head start _)
  | .getNReverse _ start _ => .map _ (doGetRangePlan _ .tail start _)
  | .getRange name start stop => .map _ (getRangePlan name .head start stop)
  | .getRangeReverse name start stop => .map _ (getRangePlan name .tail start stop)
  | .remove _ start stop => .map _ (removePlan _ start stop)
  | .removeHead _ => .map _ (removePlan _ 0 _)
  | .removeTail _ => .map _ (removePlan _ (-1) _)
  | .removeIfEq name start stop val => .map _ (removeIfEqPlan w name start stop val)
  | .size _ => .map _ (.andThen (infoPlan _) fun _ => .pure _)
  | .info _ => .map _ (infoPlan _)
  | .add name items pos => .map _ (addPlan w name items pos false)
  | .addSorted name items itemsSorted => .map _ (addPlan w name items 0 itemsSorted)
  | .addHead name items => .map _ (addPlan w name items 0 false)
  | .addTail name items => .map _ (addTailPlan w name items)
  | .set name items pos => .map _ (setPlan w name items pos)
  | .intersect list1 list2 l1Start l1Stop l2Start l2Stop newListName =>
    intersectPlan list1 list2 l1Start l1Stop l2Start l2Stop newListName

end ListApi

end FCache
