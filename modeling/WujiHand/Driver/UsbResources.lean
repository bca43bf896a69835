import WujiHand.Driver.Usb

namespace WujiHand

open Ledger

structure UsbDevice.Passes (f : DeviceFilter) (d : UsbDevice) : Prop where
  read : d.descriptorResult = 0
  length : d.descriptor.bLength ≠ 0
  vendor : d.descriptor.idVendor = f.vendorId
  numbered : d.descriptor.iSerialNumber ≠ 0
  product : 0 ≤ f.productId.toInt → (d.descriptor.idProduct.toNat : Int) = f.productId.toInt
  serial : ∀ serialNumber ∈ f.serialNumber,
    ∃ serialBuf, d.serial = .ok serialBuf ∧ cString serialBuf = cString serialNumber

def Eligible (f : DeviceFilter) (devices : List UsbDevice) (i : Nat) : Prop :=
  ∃ d, devices[i]? = some d ∧ d.Passes f ∧ d.openResult = 0

namespace Driver

variable {f : DeviceFilter} {held : List UsbResource}

theorem selectTurn_cases (f : DeviceFilter) (i : Nat) (d : UsbDevice) :
    (d.Passes f ∧ d.openResult = 0) ∧
        selectTurn f i d = (libusbOpen (.selecting i),some (.selecting i)) ∨
      ¬(d.Passes f ∧ d.openResult = 0) ∧ (selectTurn f i d = ([],none) ∨
        selectTurn f i d = (libusbOpen (.selecting i) ++ libusbClose (.selecting i),none)) := by
  unfold selectTurn
  split
  case isTrue h =>
    refine .inr ⟨fun hpasses => ?_,.inl rfl⟩
    exact h.elim (absurd hpasses.1.read) (absurd · hpasses.1.length)
  case isFalse hread =>
  split
  case isTrue h => exact .inr ⟨fun hpasses => h hpasses.1.vendor,.inl rfl⟩
  case isFalse hvendor =>
  split
  case isTrue h => exact .inr ⟨fun hpasses => hpasses.1.numbered h,.inl rfl⟩
  case isFalse hnumbered =>
  split
  case isTrue h => exact .inr ⟨fun hpasses => h.2 (hpasses.1.product h.1),.inl rfl⟩
  case isFalse hproduct =>
  split
  case isTrue h => exact .inr ⟨fun hpasses => h hpasses.2,.inl rfl⟩
  case isFalse hopen =>
  obtain ⟨hread,hlength⟩ := not_or.mp hread
  have hpasses (hserial : ∀ serialNumber ∈ f.serialNumber, ∃ serialBuf,
      d.serial = .ok serialBuf ∧ cString serialBuf = cString serialNumber) : d.Passes f :=
    ⟨not_not.mp hread,hlength,not_not.mp hvendor,hnumbered,
      fun hle => not_not.mp fun hne => hproduct ⟨hle,hne⟩,hserial⟩
  cases hfilter : f.serialNumber with
  | none =>
    rw [hfilter] at hpasses
    exact .inl ⟨⟨hpasses nofun,not_not.mp hopen⟩,rfl⟩
  | some serialNumber =>
    cases hserial : d.serial with
    | error n =>
      refine .inr ⟨fun h => ?_,.inr rfl⟩
      obtain ⟨serialBuf,hok,_⟩ := h.1.serial serialNumber hfilter
      rw [hserial] at hok
      cases hok
    | ok serialBuf =>
      dsimp only
      split
      case isTrue hne =>
        refine .inr ⟨fun h => ?_,.inr rfl⟩
        obtain ⟨serialBuf',hok,heq⟩ := h.1.serial serialNumber hfilter
        obtain rfl := Except.ok.inj (hserial.symm.trans hok)
        exact hne heq
      case isFalse heq =>
        refine .inl ⟨⟨hpasses fun serialNumber' h => ?_,not_not.mp hopen⟩,rfl⟩
        obtain rfl := Option.some.inj (hfilter.symm.trans h)
        exact ⟨serialBuf,hserial,not_not.mp heq⟩

theorem mem_selectLoop {i : Nat} {devices : List UsbDevice} {h : DeviceHandle} :
    h ∈ (selectLoop f i devices).2 ↔ ∃ j, Eligible f devices j ∧ h = .selecting (i + j) := by
  induction devices generalizing i with
  | nil => simp [selectLoop, Eligible]
  | cons d devices ih =>
    have hzero : Eligible f (d :: devices) 0 ↔ d.Passes f ∧ d.openResult = 0 := by
      simp [Eligible]
    have hturn : h ∈ (selectTurn f i d).2.toList ↔
        Eligible f (d :: devices) 0 ∧ h = .selecting i := by
      rw [hzero]
      rcases selectTurn_cases f i d with ⟨hpasses,hturn⟩ | ⟨hpasses,hturn | hturn⟩
      · simp [hturn, hpasses]
      · simp [hturn, hpasses]
      · simp [hturn, hpasses]
    rw [selectLoop, List.mem_append, hturn, ih]
    constructor
    · rintro (⟨heligible,rfl⟩ | ⟨j,heligible,rfl⟩)
      · exact ⟨0,heligible,rfl⟩
      · exact ⟨j + 1,heligible,by rw [Nat.add_assoc, Nat.add_comm 1]⟩
    · rintro ⟨_ | j,heligible,rfl⟩
      · exact .inl ⟨heligible,rfl⟩
      · exact .inr ⟨j,heligible,by rw [Nat.add_assoc, Nat.add_comm 1]⟩

theorem selectLoop_nodup {i : Nat} {devices : List UsbDevice} :
    (selectLoop f i devices).2.Nodup := by
  induction devices generalizing i with
  | nil => exact List.nodup_nil
  | cons d devices ih =>
    have hrest : DeviceHandle.selecting i ∉ (selectLoop f (i + 1) devices).2 := by
      intro hmem
      obtain ⟨j,_,heq⟩ := mem_selectLoop.mp hmem
      have := DeviceHandle.selecting.inj heq
      omega
    rw [selectLoop]
    rcases selectTurn_cases f i d with ⟨_,hturn⟩ | ⟨_,hturn | hturn⟩
    · rw [hturn]
      exact List.nodup_cons.mpr ⟨hrest,ih⟩
    · rw [hturn]
      exact ih
    · rw [hturn]
      exact ih

theorem selectLoop_post {i : Nat} {devices : List UsbDevice}
    (hfresh : ∀ j, i ≤ j → .handle (.selecting j) ∉ held) :
    post held (selectLoop f i devices).1 =
      some (((selectLoop f i devices).2.map UsbResource.handle).reverse ++ held) := by
  induction devices generalizing i held with
  | nil => rfl
  | cons d devices ih =>
    have hlater : ∀ j, i + 1 ≤ j → .handle (.selecting j) ∉ held :=
      fun j hj => hfresh j (Nat.le_of_succ_le hj)
    rw [selectLoop]
    rcases selectTurn_cases f i d with ⟨_,hturn⟩ | ⟨_,hturn | hturn⟩
    · rw [hturn, libusbOpen, List.singleton_append, post_acquire (hfresh i le_rfl), ih]
      · simp
      · intro j hj hmem
        rcases List.mem_cons.mp hmem with heq | hmem
        · cases heq
          omega
        · exact hlater j hj hmem
    · rw [hturn]
      exact ih hlater
    · rw [hturn]
      exact (post_trans (post_guarded (hfresh i le_rfl) post_nil)).trans (ih hlater)

theorem printMatchedUnmatchedDevices_post {i : Nat} {devices : List UsbDevice}
    (hfresh : ∀ j, .handle (.reporting j) ∉ held) :
    post held (printMatchedUnmatchedDevices f i devices).1 = some held := by
  induction devices generalizing i with
  | nil => rfl
  | cons d devices ih =>
    have hturn : post held (reportTurn f i d).1 = some held := by
      unfold reportTurn
      split
      · rfl
      · split
        · rfl
        · split
          · rfl
          · exact post_guarded (hfresh i) post_nil
    rw [printMatchedUnmatchedDevices, post_trans hturn]
    exact ih

theorem close_post {hs : List DeviceHandle} (hnodup : hs.Nodup) :
    post ((hs.map UsbResource.handle).reverse ++ held) (hs.flatMap libusbClose) = some held := by
  have hclose : hs.flatMap libusbClose = releaseAll (hs.map UsbResource.handle) := by
    rw [releaseAll, List.map_map]
    exact List.map_eq_flatMap.symm
  rw [hclose]
  exact post_releaseAll (hnodup.map fun _ _ => UsbResource.handle.inj)

theorem selectLoop_single {devices : List UsbDevice} {h : DeviceHandle} :
    (selectLoop f 0 devices).2 = [h] ↔
      ∃ i, (Eligible f devices i ∧ ∀ j, Eligible f devices j → j = i) ∧ h = .selecting i := by
  constructor
  · intro hopened
    obtain ⟨i,heligible,hh⟩ := mem_selectLoop.mp (hopened ▸ List.mem_singleton_self h)
    rw [Nat.zero_add] at hh
    refine ⟨i,⟨heligible,fun j hj => ?_⟩,hh⟩
    have hmem : DeviceHandle.selecting (0 + j) ∈ (selectLoop f 0 devices).2 :=
      mem_selectLoop.mpr ⟨j,hj,rfl⟩
    rw [hopened, hh, List.mem_singleton, Nat.zero_add] at hmem
    exact DeviceHandle.selecting.inj hmem
  · rintro ⟨i,⟨heligible,honly⟩,rfl⟩
    refine List.perm_singleton.mp ((List.perm_ext_iff_of_nodup selectLoop_nodup
      (List.nodup_singleton _)).mpr fun h => ?_)
    rw [mem_selectLoop, List.mem_singleton]
    constructor
    · rintro ⟨j,hj,rfl⟩
      rw [honly j hj, Nat.zero_add]
    · rintro rfl
      exact ⟨i,heligible,by rw [Nat.zero_add]⟩

def listed : List UsbResource := [.deviceDescriptors,.deviceList,.context]

theorem selectDevice_cases (f : DeviceFilter) (devices : List UsbDevice) :
    (∃ h, (selectLoop f 0 devices).2 = [h] ∧ (selectDevice f (.ok devices)).2 = some h ∧
        post [.context] (selectDevice f (.ok devices)).1 = some [.handle h,.context]) ∨
      (∀ h, (selectLoop f 0 devices).2 ≠ [h]) ∧ (selectDevice f (.ok devices)).2 = none ∧
        post [.context] (selectDevice f (.ok devices)).1 = some [.context] := by
  have hstart : post [UsbResource.context] [.acquire .deviceList,.acquire .deviceDescriptors] =
      some listed := rfl
  have hopened : post listed (selectLoop f 0 devices).1 =
      some (((selectLoop f 0 devices).2.map UsbResource.handle).reverse ++ listed) :=
    selectLoop_post (by simp [listed])
  simp only [selectDevice]
  split
  case h_1 h hsingle =>
    have hleave : post (.handle h :: listed)
        [.release .deviceDescriptors,.release .deviceList] = some [.handle h,.context] := by
      simp [listed, post, apply]
    rw [hsingle] at hopened
    refine .inl ⟨h,hsingle,rfl,?_⟩
    rw [List.append_assoc, post_trans hstart, post_trans hopened]
    exact hleave
  case h_2 handles hne =>
    have hreported : post listed (printMatchedUnmatchedDevices f 0 devices).1 = some listed :=
      printMatchedUnmatchedDevices_post (by simp [listed])
    refine .inr ⟨hne,rfl,?_⟩
    simp only [List.append_assoc]
    rw [post_trans hstart, post_trans hopened, post_trans (close_post selectLoop_nodup),
      post_trans hreported]
    rfl

def Sole (u : Libusb) (f : DeviceFilter) (i : Nat) : Prop :=
  u.initResult = 0 ∧ ∃ devices, u.deviceList = .ok devices ∧ Eligible f devices i ∧
    ∀ j, Eligible f devices j → j = i

variable {u : Libusb} {i : Nat}

theorem selectDevice_sole (hsole : Sole u f i) :
    (selectDevice f u.deviceList).2 = some (.selecting i) ∧
      post [.context] (selectDevice f u.deviceList).1 =
        some [.handle (.selecting i),.context] := by
  obtain ⟨_,devices,hlist,heligible,honly⟩ := hsole
  have hsingle := selectLoop_single.mpr ⟨i,⟨heligible,honly⟩,rfl⟩
  rw [hlist]
  rcases selectDevice_cases f devices with ⟨h,hloop,hselected,hpost⟩ | ⟨hloop,_⟩
  · obtain ⟨rfl,_⟩ := List.cons.inj (hloop.symm.trans hsingle)
    exact ⟨hselected,hpost⟩
  · exact absurd hsingle (hloop _)

theorem init_notSole (hsole : ∀ i, ¬Sole u f i) :
    (init u f).2 = none ∧ post [] (init u f).1 = some [] := by
  unfold init
  split
  case isTrue => exact ⟨rfl,rfl⟩
  case isFalse hinit =>
    have hselected : (selectDevice f u.deviceList).2 = none ∧
        post [.context] (selectDevice f u.deviceList).1 = some [.context] := by
      cases hlist : u.deviceList with
      | error n => exact ⟨rfl,rfl⟩
      | ok devices =>
        rcases selectDevice_cases f devices with ⟨h,hloop,_⟩ | ⟨_,hselected⟩
        · obtain ⟨i,⟨heligible,honly⟩,_⟩ := selectLoop_single.mp hloop
          exact absurd ⟨not_not.mp hinit,devices,hlist,heligible,honly⟩ (hsole i)
        · exact hselected
    obtain ⟨hnone,hpost⟩ := hselected
    simp only [hnone]
    refine ⟨trivial,?_⟩
    rw [List.cons_append, post_acquire List.not_mem_nil, post_trans hpost]
    rfl

def detachedDrivers (u : Libusb) (h : DeviceHandle) : List UsbResource :=
  if u.isLinux ∧ u.detachResult = 0 then [.detachedDriver h targetInterface] else []

theorem detachedDrivers_eq (u : Libusb) (h : DeviceHandle) :
    u.isLinux = true ∧ u.detachResult = 0 ∧
        detachedDrivers u h = [.detachedDriver h targetInterface] ∨
      ¬(u.isLinux = true ∧ u.detachResult = 0) ∧ detachedDrivers u h = [] := by
  unfold detachedDrivers
  split
  case isTrue hdetached => exact .inl ⟨hdetached.1,hdetached.2,rfl⟩
  case isFalse hdetached => exact .inr ⟨hdetached,rfl⟩

theorem detach_post (u : Libusb) (h : DeviceHandle) :
    post [.handle h,.context]
        (if u.isLinux then libusbDetachKernelDriver u h targetInterface else []) =
      some (detachedDrivers u h ++ [.handle h,.context]) := by
  unfold detachedDrivers libusbDetachKernelDriver
  cases u.isLinux with
  | false => rfl
  | true =>
    by_cases hdetach : u.detachResult = 0
    · simp [hdetach, post, apply]
    · simp [hdetach]

theorem claim_post (u : Libusb) (h : DeviceHandle) :
    post (detachedDrivers u h ++ [.handle h,.context])
        [.acquire (.claimedInterface h targetInterface)] =
      some (.claimedInterface h targetInterface ::
        (detachedDrivers u h ++ [.handle h,.context])) := by
  refine post_acquire ?_
  rcases detachedDrivers_eq u h with ⟨_,_,heq⟩ | ⟨_,heq⟩
  · simp [heq]
  · simp [heq]

theorem alloc_post (u : Libusb) (h : DeviceHandle) :
    post (.claimedInterface h targetInterface :: (detachedDrivers u h ++ [.handle h,.context]))
        [.acquire .transfer] =
      some (.transfer :: .claimedInterface h targetInterface ::
        (detachedDrivers u h ++ [.handle h,.context])) := by
  refine post_acquire ?_
  rcases detachedDrivers_eq u h with ⟨_,_,heq⟩ | ⟨_,heq⟩
  · simp [heq]
  · simp [heq]

theorem close_detached_post (u : Libusb) (h : DeviceHandle) :
    post (detachedDrivers u h ++ [.handle h,.context]) (libusbClose h ++ [.release .context]) =
      some (detachedDrivers u h) := by
  rcases detachedDrivers_eq u h with ⟨_,_,heq⟩ | ⟨_,heq⟩
  · simp [heq, post, apply, libusbClose]
  · simp [heq, post, apply, libusbClose]

inductive Outcome (u : Libusb) (f : DeviceFilter) (h : DeviceHandle) : Prop where
  | notDetached (hdetach : u.isLinux ∧ u.detachResult ≠ errorNotFound ∧ u.detachResult ≠ 0)
      (hresult : (init u f).2 = none) (hpost : post [] (init u f).1 = some [])
  | refused (hrefused : u.claimResult ≠ 0 ∨ u.allocTransfer = false)
      (hresult : (init u f).2 = none) (hpost : post [] (init u f).1 = some (detachedDrivers u h))
  | notSubmitted (hdetach : u.isLinux = true → u.detachResult = errorNotFound ∨ u.detachResult = 0)
      (hclaim : u.claimResult = 0) (halloc : u.allocTransfer = true) (hsubmit : u.submitResult ≠ 0)
      (hresult : (init u f).2 = none)
      (hpost : post [] (init u f).1 = some (.transfer :: detachedDrivers u h))
  | initialized (hsubmit : u.submitResult = 0) (hresult : (init u f).2 = some h)
      (hpost : post [] (init u f).1 = some (.transfer :: .claimedInterface h targetInterface ::
        (detachedDrivers u h ++ [.handle h,.context])))

theorem release_post (u : Libusb) (h : DeviceHandle) :
    post (.transfer :: .claimedInterface h targetInterface ::
        (detachedDrivers u h ++ [.handle h,.context]))
        (libusbReleaseInterface h targetInterface ++ (libusbClose h ++ [.release .context])) =
      some (.transfer :: detachedDrivers u h) := by
  rcases detachedDrivers_eq u h with ⟨_,_,heq⟩ | ⟨_,heq⟩
  · simp [heq, post, apply, libusbClose, libusbReleaseInterface]
  · simp [heq, post, apply, libusbClose, libusbReleaseInterface]

theorem init_outcome (hsole : Sole u f i) : Outcome u f (.selecting i) := by
  obtain ⟨hselected,hpost⟩ := selectDevice_sole hsole
  have hinit : ¬u.initResult ≠ 0 := not_not.mpr hsole.1
  have hopened : post [] (.acquire .context :: (selectDevice f u.deviceList).1) =
      some [.handle (.selecting i),.context] := (post_acquire List.not_mem_nil).trans hpost
  have hdetached := detach_post u (.selecting i)
  by_cases hdetach : u.isLinux ∧ u.detachResult ≠ errorNotFound ∧ u.detachResult ≠ 0
  · have hok : init u f = (.acquire .context :: (selectDevice f u.deviceList).1 ++
        libusbClose (.selecting i) ++ [.release .context],none) := by
      simp only [init, if_neg hinit, hselected, if_pos hdetach, FinalAction.destroy_enabled]
    refine .notDetached hdetach (congrArg Prod.snd hok) ?_
    rw [hok, List.append_assoc, post_trans hopened]
    exact post_release.trans post_release
  · by_cases hclaim : u.claimResult ≠ 0
    · refine .refused (.inl hclaim) ?_ ?_
      · simp only [init, if_neg hinit, hselected, if_neg hdetach, if_pos hclaim]
      · simp only [init, if_neg hinit, hselected, if_neg hdetach, if_pos hclaim,
          FinalAction.destroy_enabled, List.append_assoc]
        rw [post_trans hopened, post_trans hdetached]
        exact close_detached_post u _
    · by_cases halloc : u.allocTransfer = false
      · refine .refused (.inr halloc) ?_ ?_
        · simp only [init, if_neg hinit, hselected, if_neg hdetach, if_neg hclaim, if_pos halloc]
        · simp only [init, if_neg hinit, hselected, if_neg hdetach, if_neg hclaim, if_pos halloc,
            FinalAction.destroy_enabled, List.append_assoc]
          rw [post_trans hopened, post_trans hdetached, post_trans (claim_post u _)]
          exact post_release.trans (close_detached_post u _)
      · have hreached : u.isLinux = true → u.detachResult = errorNotFound ∨ u.detachResult = 0 := by
          intro hlinux
          by_contra hnot
          exact hdetach ⟨hlinux,not_or.mp hnot⟩
        have halloc' : u.allocTransfer = true := by simpa using halloc
        by_cases hsubmit : u.submitResult ≠ 0
        · refine .notSubmitted hreached (not_not.mp hclaim) halloc' hsubmit ?_ ?_
          · simp only [init, if_neg hinit, hselected, if_neg hdetach, if_neg hclaim,
              if_neg halloc, if_pos hsubmit]
          · simp only [init, if_neg hinit, hselected, if_neg hdetach, if_neg hclaim,
              if_neg halloc, if_pos hsubmit, FinalAction.destroy_enabled, List.append_assoc]
            rw [post_trans hopened, post_trans hdetached, post_trans (claim_post u _),
              post_trans (alloc_post u _)]
            exact release_post u _
        · refine .initialized (not_not.mp hsubmit) ?_ ?_
          · simp only [init, if_neg hinit, hselected, if_neg hdetach, if_neg hclaim,
              if_neg halloc, if_neg hsubmit]
          · simp only [init, if_neg hinit, hselected, if_neg hdetach, if_neg hclaim,
              if_neg halloc, if_neg hsubmit, FinalAction.destroy_disabled, List.append_assoc,
              List.append_nil]
            rw [post_trans hopened, post_trans hdetached, post_trans (claim_post u _)]
            exact alloc_post u _

-- What the destructor attaches is interface 0, which no kernel driver was detached from.
theorem destroy_post (u : Libusb) (h : DeviceHandle) :
    post (.transfer :: .claimedInterface h targetInterface ::
        (detachedDrivers u h ++ [.handle h,.context])) (destroy u.isLinux h) =
      some (detachedDrivers u h) := by
  have hother : .detachedDriver h 0 ∉ detachedDrivers u h ++ [.handle h,.context] := by
    rcases detachedDrivers_eq u h with ⟨_,_,heq⟩ | ⟨_,heq⟩
    · simp [heq, targetInterface]
    · simp [heq]
  have hclosed := close_detached_post u h
  cases u.isLinux with
  | false => exact post_release.trans (post_release.trans hclosed)
  | true => exact post_release.trans (post_release.trans ((post_restore hother).trans hclosed))

structure ReleasesOnce (u : Libusb) (f : DeviceFilter) : Prop where
  selects : ∀ h ∈ (init u f).2, ∃ devices, u.deviceList = .ok devices ∧
    ∃ i, h = .selecting i ∧ Eligible f devices i ∧ ∀ j, Eligible f devices j → j = i
  failed : (init u f).2 = none → post [] (init u f).1 = some []
  succeeded : ∀ h ∈ (init u f).2, ∃ held, post [] (init u f).1 = some held ∧
    (∀ h', .handle h' ∈ held ↔ h' = h) ∧ post held (destroy u.isLinux h) = some []

theorem releasesOnce_of_failed (hnone : (init u f).2 = none) :
    ReleasesOnce u f ↔ post [] (init u f).1 = some [] := by
  refine ⟨fun h => h.failed hnone,fun hpost => ⟨?_,fun _ => hpost,?_⟩⟩
  · rw [hnone]
    exact nofun
  · rw [hnone]
    exact nofun

theorem detachedDrivers_nil (h : DeviceHandle) :
    detachedDrivers u h = [] ↔ ¬(u.isLinux = true ∧ u.detachResult = 0) := by
  rcases detachedDrivers_eq u h with ⟨hlinux,hdetach,heq⟩ | ⟨hnot,heq⟩
  · simp [heq, hlinux, hdetach]
  · exact ⟨fun _ => hnot,fun _ => heq⟩

theorem releasesOnce_of_initialized (hsole : Sole u f i)
    (hresult : (init u f).2 = some (.selecting i))
    (hpost : post [] (init u f).1 =
      some (.transfer :: .claimedInterface (.selecting i) targetInterface ::
        (detachedDrivers u (.selecting i) ++ [.handle (.selecting i),.context]))) :
    ReleasesOnce u f ↔ detachedDrivers u (.selecting i) = [] := by
  have hdestroy := destroy_post u (.selecting i)
  constructor
  · intro h
    obtain ⟨held,hheld,_,hreleased⟩ := h.succeeded _ hresult
    obtain rfl := Option.some.inj (hpost.symm.trans hheld)
    exact Option.some.inj (hdestroy.symm.trans hreleased)
  · intro hnil
    obtain ⟨_,devices,hlist,heligible,honly⟩ := hsole
    refine ⟨fun h hh => ?_,fun hnone => ?_,fun h hh => ?_⟩
    · obtain rfl := Option.some.inj (hresult.symm.trans hh)
      exact ⟨devices,hlist,i,rfl,heligible,honly⟩
    · rw [hresult] at hnone
      cases hnone
    · obtain rfl := Option.some.inj (hresult.symm.trans hh)
      refine ⟨_,hpost,fun h' => ?_,hnil ▸ hdestroy⟩
      simp [hnil]

def SparesDriver (u : Libusb) : Prop :=
  ¬(u.isLinux = true ∧ u.detachResult = 0) ∧
    ((u.isLinux = true → u.detachResult = errorNotFound) → u.claimResult = 0 →
      u.allocTransfer = true → u.submitResult = 0)

theorem releasesOnce_sole (hsole : Sole u f i) : ReleasesOnce u f ↔ SparesDriver u := by
  cases init_outcome hsole with
  | notDetached hdetach hresult hpost =>
    rw [releasesOnce_of_failed hresult]
    refine ⟨fun _ => ⟨fun h => hdetach.2.2 h.2,fun h => ?_⟩,fun _ => hpost⟩
    exact absurd (h hdetach.1) hdetach.2.1
  | refused hrefused hresult hpost =>
    rw [releasesOnce_of_failed hresult, hpost, Option.some.injEq, detachedDrivers_nil]
    refine ⟨fun h => ⟨h,fun _ hclaim halloc => ?_⟩,And.left⟩
    rcases hrefused with hrefused | hrefused
    · exact absurd hclaim hrefused
    · rw [halloc] at hrefused
      cases hrefused
  | notSubmitted hdetach hclaim halloc hsubmit hresult hpost =>
    rw [releasesOnce_of_failed hresult, hpost]
    refine ⟨nofun,fun h => absurd (h.2 (fun hlinux => ?_) hclaim halloc) hsubmit⟩
    exact (hdetach hlinux).resolve_right fun hzero => h.1 ⟨hlinux,hzero⟩
  | initialized hsubmit hresult hpost =>
    rw [releasesOnce_of_initialized hsole hresult hpost, detachedDrivers_nil]
    exact ⟨fun h => ⟨h,fun _ _ _ => hsubmit⟩,And.left⟩

theorem releasesOnce_iff (u : Libusb) (f : DeviceFilter) :
    ReleasesOnce u f ↔ ∀ i, Sole u f i → SparesDriver u := by
  by_cases hsome : ∃ i, Sole u f i
  · obtain ⟨i,hsole⟩ := hsome
    rw [releasesOnce_sole hsole]
    exact ⟨fun h _ _ => h,fun h => h i hsole⟩
  · obtain ⟨hnone,hpost⟩ := init_notSole (not_exists.mp hsome)
    rw [releasesOnce_of_failed hnone]
    exact ⟨fun _ i hi => absurd ⟨i,hi⟩ hsome,fun _ => hpost⟩

def handDevice : UsbDevice := ⟨0,⟨18,0x0483,0x7530,3⟩,0,.ok [0x57],0⟩

def handFilter : DeviceFilter := ⟨0x0483,-1,none⟩

theorem kernelDriver_stays_detached :
    ¬ReleasesOnce ⟨true,0,.ok [handDevice],0,0,true,0⟩ handFilter ∧
    ¬ReleasesOnce ⟨true,0,.ok [handDevice],0,-6,true,0⟩ handFilter ∧
    ¬ReleasesOnce ⟨false,0,.ok [handDevice],0,0,true,-1⟩ handFilter := by
  refine ⟨fun h => ?_,fun h => ?_,fun h => ?_⟩
  · obtain ⟨held,hheld,_,hreleased⟩ := h.succeeded (.selecting 0) (by decide)
    obtain rfl : [.transfer,.claimedInterface (.selecting 0) 1,.detachedDriver (.selecting 0) 1,
      .handle (.selecting 0),.context] = held := Option.some.inj hheld
    exact absurd hreleased (by decide)
  · exact absurd (h.failed (by decide)) (by decide)
  · exact absurd (h.failed (by decide)) (by decide)

end Driver

end WujiHand
