import CrashMonkey.Harness.Cleanup

namespace CrashMonkey.Resources

/-- The descriptors that the tester has are open, and so the wrapper is loaded as long as
there is an `ioctl_fd`. -/
structure Opened (s : Tester) : Prop where
  nodup : (s.kernel.files.map Prod.fst).Nodup
  cowBrd : ∀ fd, s.cowBrdFd = some fd → (fd, COW_BRD_PATH) ∈ s.kernel.files
  ioctl : ∀ fd, s.ioctlFd = some fd → (fd, FULL_WRAPPER_PATH) ∈ s.kernel.files
  wrapper : s.ioctlFd.isSome → s.kernel.loaded .wrapper = true

theorem Kernel.openFile_unused {k k' : Kernel} {dev : String} {fd? : Option ℕ} {fd : ℕ}
    (h : k.openFile dev fd? = some (fd, k')) :
    k.present dev = true ∧ fd ∉ k.files.map Prod.fst := by
  unfold openFile at h
  split at h
  · cases h
  · split_ifs at h with hfree
    obtain ⟨hpresent, hall⟩ := Bool.and_eq_true_iff.mp hfree
    cases h
    refine ⟨hpresent, fun hmem => ?_⟩
    obtain ⟨f, hf, rfl⟩ := List.mem_map.mp hmem
    simpa using List.all_eq_true.mp hall f hf

theorem Kernel.nodup_close {k : Kernel} (h : (k.files.map Prod.fst).Nodup) (fd : ℕ) :
    ((k.close fd).files.map Prod.fst).Nodup := h.sublist (List.filter_sublist.map _)

section Operations

variable {s t : Tester} {x : Outcomes}

/-- A call that changes no descriptor and does not remove the wrapper. -/
theorem Opened.congr (h : Opened s) (hfiles : t.kernel.files = s.kernel.files)
    (hcowBrd : t.cowBrdFd = s.cowBrdFd) (hioctl : t.ioctlFd = s.ioctlFd)
    (hwrapper : s.kernel.loaded .wrapper = true → t.kernel.loaded .wrapper = true) :
    Opened t where
  nodup := hfiles ▸ h.nodup
  cowBrd := by
    rw [hfiles, hcowBrd]
    exact h.cowBrd
  ioctl := by
    rw [hfiles, hioctl]
    exact h.ioctl
  wrapper := by
    rw [hioctl]
    exact fun hopen => hwrapper (h.wrapper hopen)

/-- No descriptor is open for two devices. -/
theorem Opened.cowBrd_ne (h : Opened s) {fd : ℕ} (hcowBrd : s.cowBrdFd = some fd) :
    s.ioctlFd ≠ some fd := by
  intro hioctl
  have hsame := List.inj_on_of_nodup_map h.nodup (h.cowBrd fd hcowBrd) (h.ioctl fd hioctl) rfl
  exact absurd (congrArg Prod.snd hsame) (show COW_BRD_PATH ≠ FULL_WRAPPER_PATH by decide)

theorem Opened.mountDevice (h : Opened s) (dev : String) : Opened (s.mountDevice dev x).2 := by
  rcases s.mountDevice_cases x dev with ⟨-, hcall⟩ | ⟨-, hcall⟩ <;> rw [hcall]
  · exact h.congr rfl rfl rfl id
  · exact h.congr rfl rfl rfl id

theorem Opened.umountDevice (h : Opened s) : Opened (s.umountDevice x).2 := by
  rcases s.umountDevice_cases x with ⟨-, hcall⟩ | ⟨-, -, hcall⟩ | ⟨-, -, hcall⟩ <;> rw [hcall]
  · exact h
  · exact h
  · exact h.congr rfl rfl rfl id

theorem Opened.insertWrapper (h : Opened s) : Opened (s.insertWrapper x).2 := by
  rcases s.insertWrapper_cases x with ⟨-, hcall⟩ | ⟨-, hcall⟩ | ⟨-, hcall⟩ <;> rw [hcall]
  · exact h
  · exact h
  · exact h.congr rfl rfl rfl fun _ => by simp

/-- The wrapper is removed only if it is not open. -/
theorem Opened.removeWrapper (h : Opened s) : Opened (s.removeWrapper x).2 := by
  rcases s.removeWrapper_cases x with ⟨-, hcall⟩ | ⟨-, -, hcall⟩ | ⟨-, hrm, hcall⟩ <;> rw [hcall]
  · exact h
  · exact h
  · obtain ⟨k, hk⟩ := Option.isSome_iff_exists.mp hrm
    have hidle := (Kernel.rmmod_eq_some.mp hk).1.2.2
    have hnone : s.ioctlFd = none := by
      by_contra hopen
      obtain ⟨fd, hfd⟩ := Option.ne_none_iff_exists'.mp hopen
      have hbusy : s.kernel.inUse .wrapper = true := by
        rw [Kernel.inUse, Bool.or_eq_true]
        exact .inr (List.any_eq_true.mpr ⟨_, h.ioctl fd hfd, by simp [moduleOf]⟩)
      rw [hbusy] at hidle
      cases hidle
    exact ⟨h.nodup, h.cowBrd, h.ioctl, fun hopen => by simp [hnone] at hopen⟩

theorem Opened.closeCowBrd (h : Opened s) : Opened s.closeCowBrd := by
  unfold Tester.closeCowBrd
  split
  · exact h
  · rename_i fd hfd
    refine ⟨Kernel.nodup_close h.nodup fd, nofun, fun fd' hfd' => ?_, h.wrapper⟩
    have hne : fd' ≠ fd := fun heq => h.cowBrd_ne hfd (heq ▸ hfd')
    exact List.mem_filter.mpr ⟨h.ioctl fd' hfd', bne_iff_ne.mpr hne⟩

theorem Opened.removeCowBrd (h : Opened s) : Opened (s.removeCowBrd x).2 := by
  have hclosed := h.closeCowBrd
  rcases s.removeCowBrd_cases x with ⟨-, hcall⟩ | ⟨-, -, hcall⟩ | ⟨-, -, hcall⟩ <;> rw [hcall]
  · exact h
  · exact hclosed.congr rfl rfl rfl id
  · exact hclosed.congr rfl rfl rfl fun hloaded => by simpa using hloaded

/-- A descriptor that is opened is none of those that are open. -/
theorem Opened.opened (h : Opened s) (dev : String) {fd : ℕ}
    (hunused : fd ∉ s.kernel.files.map Prod.fst) :
    Opened { s with kernel := { s.kernel with files := (fd, dev) :: s.kernel.files } } where
  nodup := List.nodup_cons.mpr ⟨hunused, h.nodup⟩
  cowBrd := fun fd' hfd' => List.mem_cons_of_mem _ (h.cowBrd fd' hfd')
  ioctl := fun fd' hfd' => List.mem_cons_of_mem _ (h.ioctl fd' hfd')
  wrapper := h.wrapper

theorem Opened.insmodCowBrd (h : Opened s) {k : Kernel} (hk : s.insmodCowBrd x = some k) :
    Opened { s with kernel := k } := by
  rcases s.insmodCowBrd_cases x with ⟨-, hins⟩ | ⟨-, -, hins⟩ | ⟨-, hins⟩
  · rw [hins] at hk
    cases hk
  · obtain rfl := Option.some.inj (hk.symm.trans hins)
    exact h.congr rfl rfl rfl fun hloaded => by simpa using hloaded
  · obtain rfl := Option.some.inj (hk.symm.trans hins)
    exact h

theorem Opened.insertCowBrd (h : Opened s) : Opened (s.insertCowBrd x).2 := by
  unfold Tester.insertCowBrd
  split
  · exact ⟨h.nodup, nofun, h.ioctl, h.wrapper⟩
  · rename_i k hins
    have hk := h.insmodCowBrd hins
    split
    · rename_i fd k' hopen
      obtain ⟨hnodup, -, hioctl, hwrapper⟩ := hk.opened COW_BRD_PATH
        (Kernel.openFile_unused hopen).2
      obtain rfl := Kernel.openFile_eq_some hopen
      refine ⟨hnodup, fun fd' hfd' => ?_, hioctl, hwrapper⟩
      obtain rfl := Option.some.inj hfd'
      exact List.mem_cons_self
    · split
      · exact ⟨hk.nodup, nofun, hk.ioctl, hk.wrapper⟩
      · rename_i k' hrm
        obtain rfl := (Kernel.rmmod_eq_some.mp hrm).2
        refine ⟨hk.nodup, nofun, hk.ioctl, fun hopen => ?_⟩
        simpa using hk.wrapper hopen

theorem Opened.getWrapperIoctl (h : Opened s) : Opened (s.getWrapperIoctl x).2 := by
  unfold Tester.getWrapperIoctl
  split
  · exact ⟨h.nodup, h.cowBrd, nofun, nofun⟩
  · rename_i fd k hopen
    obtain ⟨hpresent, hunused⟩ := Kernel.openFile_unused hopen
    obtain ⟨hnodup, hcowBrd, -, -⟩ := h.opened FULL_WRAPPER_PATH hunused
    obtain rfl := Kernel.openFile_eq_some hopen
    refine ⟨hnodup, hcowBrd, fun fd' hfd' => ?_, fun _ => ?_⟩
    · obtain rfl := Option.some.inj hfd'
      exact List.mem_cons_self
    · simpa [Kernel.present, moduleOf] using hpresent

theorem Opened.putWrapperIoctl (h : Opened s) : Opened s.putWrapperIoctl := by
  unfold Tester.putWrapperIoctl
  split
  · exact h
  · rename_i fd hfd
    refine ⟨Kernel.nodup_close h.nodup fd, fun fd' hfd' => ?_, nofun, nofun⟩
    have hne : fd' ≠ fd := fun heq => h.cowBrd_ne (heq ▸ hfd') hfd
    exact List.mem_filter.mpr ⟨h.cowBrd fd' hfd', bne_iff_ne.mpr hne⟩

theorem Opened.testRound (h : Opened s) (y : RoundCalls) : Opened (s.testRound y) := by
  unfold Tester.testRound
  split
  · exact h
  · rename_i fd k hopen
    have hunused := (Kernel.openFile_unused hopen).2
    have hopened := h.opened SNAPSHOT_PATH hunused
    obtain rfl := Kernel.openFile_eq_some hopen
    let opened : Kernel := { s.kernel with files := (fd, SNAPSHOT_PATH) :: s.kernel.files }
    have hclosed : Opened { s with kernel := opened.close fd } := by
      have hne {fd' : ℕ} {dev : String} (hmem : (fd', dev) ∈ s.kernel.files) : fd' ≠ fd :=
        fun heq => hunused (heq ▸ List.mem_map_of_mem hmem)
      refine ⟨Kernel.nodup_close hopened.nodup fd, fun fd' hfd' => ?_, fun fd' hfd' => ?_, h.wrapper⟩
      · exact List.mem_filter.mpr ⟨hopened.cowBrd fd' hfd', bne_iff_ne.mpr (hne (h.cowBrd fd' hfd'))⟩
      · exact List.mem_filter.mpr ⟨hopened.ioctl fd' hfd', bne_iff_ne.mpr (hne (h.ioctl fd' hfd'))⟩
    dsimp only
    split_ifs
    · exact hopened
    · exact hclosed
    · exact hclosed.mountDevice SNAPSHOT_PATH
    · exact (hclosed.mountDevice SNAPSHOT_PATH).umountDevice

theorem Opened.testRounds (h : Opened s) (rounds : List RoundCalls) :
    Opened (rounds.foldl Tester.testRound s) := by
  induction rounds generalizing s with
  | nil => exact h
  | cons y rounds ih => exact ih (h.testRound y)

theorem Opened.cleanupHarness (h : Opened s) : Opened (s.cleanupHarness x) := by
  unfold Tester.cleanupHarness
  dsimp only
  split_ifs
  · exact h.umountDevice
  · exact h.umountDevice.removeWrapper
  · exact h.umountDevice.removeWrapper.removeCowBrd

end Operations

end CrashMonkey.Resources
