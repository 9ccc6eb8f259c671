import MessageCall.State.Ledger

/-!
# The net effect of an execution

`Ledger.transitions` compares every account as it is now with the account as it was first read and
lists the differences, by increasing address. An account that was only read is passed over, and so
is one whose changes cancel out.

An account that was there before and has been created anew loses its storage, so all of its
non-zero slots count as added. New code is taken from the ledger's own cache of code.
-/

namespace MessageCall

namespace Ledger

/-- The slots whose contents differ from the ones before. -/
def changedSlots (before now : CachedAccount) (recreated : Bool) : WordMap 256 Word :=
  now.storage.filter fun key value =>
    value ≠ if recreated then 0 else (before.storage.get? key).getD 0

/-- The new code of an account, if its digest has changed. -/
def changedCode (l : Ledger) (before now : CachedAccount) :
    Except InternalError (Option Bytes) :=
  if before.info.codeHash = now.info.codeHash then .ok none
  else if now.info.codeHash = emptyCodeHash then .ok (some [])
  else match l.codes.get? now.info.codeHash with
    | some code => .ok (some code)
    | none => .error (.codeNotFound now.info.codeHash)

/-- What has changed in an account, if anything. -/
def update? (l : Ledger) (address : Address) (now : CachedAccount) :
    Except InternalError (Option AccountUpdate) :=
  if now.isUnmodified then .ok none
  else match l.initial.get? address with
    | none => .error (.accountNotFound address)
    | some before =>
      -- An account that is gone again, or that was not there before, has no storage to lose.
      let recreated := now.storageIsFresh && before.present && now.present
      let infoChanged := (now.present && !before.present) || before.info ≠ now.info
      match l.changedCode before now with
      | .error e => .error e
      | .ok code =>
        let slots := changedSlots before now recreated
        if !infoChanged && slots.isEmpty && !recreated then .ok none
        else .ok (some {
          address
          info := if infoChanged then some now.info else none
          code
          removedStorage := recreated
          addedStorage := slots })

/-- What has changed in the accounts of a list. -/
def updates (l : Ledger) : List (Address × CachedAccount) →
    Except InternalError (List AccountUpdate)
  | [] => .ok []
  | (address, now) :: rest =>
    match l.update? address now with
    | .error e => .error e
    | .ok change =>
      match l.updates rest with
      | .error e => .error e
      | .ok changes => .ok (change.toList ++ changes)

/-- The **net effect** of an execution: what it changed, account by account, by increasing
address. -/
def transitions (l : Ledger) : Except InternalError (List AccountUpdate) :=
  l.updates l.current.entries

end Ledger

end MessageCall
