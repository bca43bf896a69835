import WujiHand.Library.Ledger
import WujiHand.Protocol.Records

namespace WujiHand

open Ledger

structure FinalAction (E : Type) where
  action : List E
  enabled : Bool := true

namespace FinalAction

variable {E : Type}

def disable (g : FinalAction E) : FinalAction E := { g with enabled := false }

def destroy (g : FinalAction E) : List E := if g.enabled then g.action else []

@[simp] theorem destroy_enabled (action : List E) : (⟨action,true⟩ : FinalAction E).destroy =
    action := rfl

@[simp] theorem destroy_disabled (g : FinalAction E) : g.disable.destroy = [] := rfl

end FinalAction

-- A device is opened to be selected, and again when the devices found are reported.
inductive DeviceHandle where
  | selecting (device : Nat)
  | reporting (device : Nat)
deriving DecidableEq, Repr

inductive UsbResource where
  | context
  | deviceList
  | deviceDescriptors
  | handle (h : DeviceHandle)
  | detachedDriver (h : DeviceHandle) (interface : Nat)
  | claimedInterface (h : DeviceHandle) (interface : Nat)
  | transfer
deriving DecidableEq, Repr

abbrev UsbTrace : Type := List (Entry UsbResource)

structure DeviceDescriptor where
  bLength : BitVec 8
  idVendor : BitVec 16
  idProduct : BitVec 16
  iSerialNumber : BitVec 8

-- The descriptor is what its place in the array holds after the call, be it successful or not.
structure UsbDevice where
  descriptorResult : Int
  descriptor : DeviceDescriptor
  openResult : Int
  serial : Except Int (List Byte)
  reopenResult : Int

structure DeviceFilter where
  vendorId : BitVec 16
  productId : BitVec 32
  serialNumber : Option (List Byte)

structure Libusb where
  isLinux : Bool
  initResult : Int
  deviceList : Except Int (List UsbDevice)
  detachResult : Int
  claimResult : Int
  allocTransfer : Bool
  submitResult : Int

def errorNotFound : Int := -5

def libusbOpen (h : DeviceHandle) : UsbTrace := [.acquire (.handle h)]

def libusbClose (h : DeviceHandle) : UsbTrace := [.release (.handle h)]

def libusbReleaseInterface (h : DeviceHandle) (interface : Nat) : UsbTrace :=
  [.release (.claimedInterface h interface)]

def libusbDetachKernelDriver (u : Libusb) (h : DeviceHandle) (interface : Nat) : UsbTrace :=
  if u.detachResult = 0 then [.acquire (.detachedDriver h interface)] else []

-- Attaching the kernel driver to an interface it was not detached from has no effect.
def libusbAttachKernelDriver (h : DeviceHandle) (interface : Nat) : UsbTrace :=
  [.restore (.detachedDriver h interface)]

def cString (bytes : List Byte) : List Byte := bytes.takeWhile fun b => b ≠ 0

namespace Driver

def targetInterface : Nat := 1

def selectTurn (f : DeviceFilter) (i : Nat) (d : UsbDevice) : UsbTrace × Option DeviceHandle :=
  if d.descriptorResult ≠ 0 ∨ d.descriptor.bLength = 0 then ([],none)
  else if d.descriptor.idVendor ≠ f.vendorId then ([],none)
  else if d.descriptor.iSerialNumber = 0 then ([],none)
  else if 0 ≤ f.productId.toInt ∧ (d.descriptor.idProduct.toNat : Int) ≠ f.productId.toInt then
    ([],none)
  else if d.openResult ≠ 0 then ([],none)
  else
    let handle := .selecting i
    let closeDevice : FinalAction (Entry UsbResource) := ⟨libusbClose handle,true⟩
    match f.serialNumber with
    | none => (libusbOpen handle ++ closeDevice.disable.destroy,some handle)
    | some serialNumber =>
      match d.serial with
      | .error _ => (libusbOpen handle ++ closeDevice.destroy,none)
      | .ok serialBuf =>
        if cString serialBuf ≠ cString serialNumber then
          (libusbOpen handle ++ closeDevice.destroy,none)
        else (libusbOpen handle ++ closeDevice.disable.destroy,some handle)

def selectLoop (f : DeviceFilter) : Nat → List UsbDevice → UsbTrace × List DeviceHandle
  | _, [] => ([],[])
  | i, d :: devices =>
    let turn := selectTurn f i d
    let rest := selectLoop f (i + 1) devices
    (turn.1 ++ rest.1,turn.2.toList ++ rest.2)

def reportTurn (f : DeviceFilter) (i : Nat) (d : UsbDevice) : UsbTrace × Nat :=
  if d.descriptor.idVendor ≠ f.vendorId then ([],0)
  else if d.descriptor.iSerialNumber = 0 then ([],0)
  else if d.reopenResult ≠ 0 then ([],1)
  else
    let handle := .reporting i
    let closeDevice : FinalAction (Entry UsbResource) := ⟨libusbClose handle,true⟩
    (libusbOpen handle ++ closeDevice.destroy,1)

def printMatchedUnmatchedDevices (f : DeviceFilter) : Nat → List UsbDevice → UsbTrace × Nat
  | _, [] => ([],0)
  | i, d :: devices =>
    let turn := reportTurn f i d
    let rest := printMatchedUnmatchedDevices f (i + 1) devices
    (turn.1 ++ rest.1,turn.2 + rest.2)

def selectDevice (f : DeviceFilter) :
    Except Int (List UsbDevice) → UsbTrace × Option DeviceHandle
  | .error _ => ([],none)
  | .ok devices =>
    let freeDeviceList : FinalAction (Entry UsbResource) := ⟨[.release .deviceList],true⟩
    let freeDeviceDescriptors : FinalAction (Entry UsbResource) :=
      ⟨[.release .deviceDescriptors],true⟩
    let start : UsbTrace := [.acquire .deviceList,.acquire .deviceDescriptors]
    let leave := freeDeviceDescriptors.destroy ++ freeDeviceList.destroy
    let (opened,devicesOpened) := selectLoop f 0 devices
    match devicesOpened with
    | [handle] => (start ++ opened ++ leave,some handle)
    | handles =>
      (start ++ opened ++ handles.flatMap libusbClose ++
        (printMatchedUnmatchedDevices f 0 devices).1 ++ leave,none)

def init (u : Libusb) (f : DeviceFilter) : UsbTrace × Option DeviceHandle :=
  if u.initResult ≠ 0 then ([],none)
  else
    let exitLibusb : FinalAction (Entry UsbResource) := ⟨[.release .context],true⟩
    let (selected,device) := selectDevice f u.deviceList
    let trace := .acquire .context :: selected
    match device with
    | none => (trace ++ exitLibusb.destroy,none)
    | some h =>
      let closeDeviceHandle : FinalAction (Entry UsbResource) := ⟨libusbClose h,true⟩
      if u.isLinux ∧ u.detachResult ≠ errorNotFound ∧ u.detachResult ≠ 0 then
        (trace ++ closeDeviceHandle.destroy ++ exitLibusb.destroy,none)
      else
        let trace := trace ++ if u.isLinux then libusbDetachKernelDriver u h targetInterface else []
        if u.claimResult ≠ 0 then
          (trace ++ closeDeviceHandle.destroy ++ exitLibusb.destroy,none)
        else
          let trace := trace ++ [.acquire (.claimedInterface h targetInterface)]
          let releaseInterface : FinalAction (Entry UsbResource) :=
            ⟨libusbReleaseInterface h targetInterface,true⟩
          if u.allocTransfer = false then
            (trace ++ releaseInterface.destroy ++ closeDeviceHandle.destroy ++
              exitLibusb.destroy,none)
          else
            let trace := trace ++ [.acquire .transfer]
            if u.submitResult ≠ 0 then
              (trace ++ releaseInterface.destroy ++ closeDeviceHandle.destroy ++
                exitLibusb.destroy,none)
            else
              (trace ++ releaseInterface.disable.destroy ++ closeDeviceHandle.disable.destroy ++
                exitLibusb.disable.destroy,some h)

def destroy (isLinux : Bool) (h : DeviceHandle) : UsbTrace :=
  [.release .transfer] ++ libusbReleaseInterface h targetInterface ++
    (if isLinux then libusbAttachKernelDriver h 0 else []) ++ libusbClose h ++
    [.release .context]

end Driver

end WujiHand
