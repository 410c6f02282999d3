/-! Powers of natural numbers and integers. Wherever monoids bring a power of their own, `2 ^ 64`
still means repeated multiplication as the core library has it, so that no definition changes its
meaning with what stands before it. -/

attribute [instance (100000), default_instance 100000] instPowNat
