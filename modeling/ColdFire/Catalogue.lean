import ColdFire.Instruction.Definition

namespace ColdFire.Catalogue

def arithmetic : List Definition :=
  basic "add" "adda" 0xD000 .add ++ basic "sub" "suba" 0x9000 .sub ++
  [ { mnemonic := "cmp", opcode := 0xB080, operandMask := 0x0E3F, sizes := [.long], slot := .src,
      srcModes := .all, format := .eaToData .long, operation := .arith .cmp },
    { mnemonic := "cmp", opcode := 0xB000, operandMask := 0x0E3F, sizes := [.byte], slot := .src,
      tier := .b, srcModes := .data, format := .eaToData .byte, operation := .arith .cmp },
    { mnemonic := "cmp", opcode := 0xB040, operandMask := 0x0E3F, sizes := [.word], slot := .src,
      tier := .b, srcModes := .all, format := .eaToData .word, operation := .arith .cmp },
    { mnemonic := "cmpa", opcode := 0xB1C0, operandMask := 0x0E3F, sizes := [.long], slot := .src,
      srcModes := .all, format := .eaToAddr .long, operation := .addressArith .cmp },
    { mnemonic := "cmpa", opcode := 0xB0C0, operandMask := 0x0E3F, sizes := [.word], slot := .src,
      tier := .b, srcModes := .all, format := .eaToAddr .word, operation := .addressArith .cmp },
    immediate "addi" 0x0680 .long .a .add,
    immediate "subi" 0x0480 .long .a .sub,
    immediate "cmpi" 0x0C80 .long .a .cmp,
    immediate "cmpi" 0x0C00 .byte .b .cmp,
    immediate "cmpi" 0x0C40 .word .b .cmp,
    quick "addq" 0x5080 .add,
    quick "subq" 0x5180 .sub,
    extended "addx" 0xD180 .add,
    extended "subx" 0x9180 .sub,
    { mnemonic := "neg", opcode := 0x4480, operandMask := 0x0007, sizes := [.long],
      format := .dataReg .long, operation := .negate false },
    { mnemonic := "negx", opcode := 0x4080, operandMask := 0x0007, sizes := [.long],
      format := .dataReg .long, operation := .negate true },
    { mnemonic := "clr", opcode := 0x4200, operandMask := 0x00FF, sizes := [.byte, .word, .long],
      slot := .dst, dstModes := .dataAlterable, exclusions := [(0x00C0, 0x00C0)],
      format := .sizedEa true, operation := .clear },
    { mnemonic := "tst", opcode := 0x4A00, operandMask := 0x00FF, sizes := [.byte, .word, .long],
      slot := .src, srcModes := .all, exclusions := [(0x00C0, 0x00C0), (0x00F8, 0x0008)],
      format := .sizedEa false, operation := .test },
    { mnemonic := "ext", opcode := 0x4880, operandMask := 0x0007, sizes := [.word],
      defaultSize := some .word, format := .dataReg .word, operation := .extend .byte },
    { mnemonic := "ext", opcode := 0x48C0, operandMask := 0x0007, sizes := [.long],
      format := .dataReg .long, operation := .extend .word },
    { mnemonic := "extb", opcode := 0x49C0, operandMask := 0x0007, sizes := [.long],
      format := .dataReg .long, operation := .extend .byte } ]
where
  basic (name addrName : String) (base : UInt16) (op : ArithOp) : List Definition :=
    [ { mnemonic := name, opcode := base ||| 0x0080, operandMask := 0x0E3F, sizes := [.long],
        slot := .src, srcModes := .all, format := .eaToData .long, operation := .arith op },
      { mnemonic := name, opcode := base ||| 0x0180, operandMask := 0x0E3F, sizes := [.long],
        slot := .dst, dstModes := .memoryAlterable, format := .dataToEa, operation := .arith op },
      { mnemonic := addrName, opcode := base ||| 0x01C0, operandMask := 0x0E3F, sizes := [.long],
        slot := .src, srcModes := .all, format := .eaToAddr .long,
        operation := .addressArith op } ]
  immediate (name : String) (opcode : UInt16) (size : Size) (tier : Tier) (op : ArithOp) :
      Definition :=
    { mnemonic := name, opcode := opcode, operandMask := 0x0007, tier := tier, sizes := [size],
      slot := .dst, dstModes := .dn, format := .immToData size, operation := .arith op }
  quick (name : String) (opcode : UInt16) (op : ArithOp) : Definition :=
    { mnemonic := name, opcode := opcode, operandMask := 0x0E3F, sizes := [.long], slot := .dst,
      dstModes := .alterable, format := .quick .oneToEight, operation := .arith op }
  extended (name : String) (opcode : UInt16) (op : ArithOp) : Definition :=
    { mnemonic := name, opcode := opcode, operandMask := 0x0E07, sizes := [.long],
      format := .dataPair, operation := .extendedArith op }

def logic : List Definition :=
  [ toReg "and" 0xC080 .and, toEa "and" 0xC180 .memoryAlterable .and,
    toReg "or" 0x8080 .or, toEa "or" 0x8180 .memoryAlterable .or,
    toEa "eor" 0xB180 .dataAlterable .xor,
    immediate "andi" 0x0280 .and, immediate "ori" 0x0080 .or, immediate "eori" 0x0A80 .xor,
    { mnemonic := "not", opcode := 0x4680, operandMask := 0x0007, sizes := [.long],
      format := .dataReg .long, operation := .complement } ]
where
  toReg (name : String) (opcode : UInt16) (op : LogicOp) : Definition :=
    { mnemonic := name, opcode := opcode, operandMask := 0x0E3F, sizes := [.long], slot := .src,
      srcModes := .data, format := .eaToData .long, operation := .logic op }
  toEa (name : String) (opcode : UInt16) (modes : Modes) (op : LogicOp) : Definition :=
    { mnemonic := name, opcode := opcode, operandMask := 0x0E3F, sizes := [.long], slot := .dst,
      dstModes := modes, format := .dataToEa, operation := .logic op }
  immediate (name : String) (opcode : UInt16) (op : LogicOp) : Definition :=
    { mnemonic := name, opcode := opcode, operandMask := 0x0007, sizes := [.long], slot := .dst,
      dstModes := .dn, format := .immToData .long, operation := .logic op }

def shifts : List Definition :=
  [ ofKind "asl" 0xE180 .asl, ofKind "asr" 0xE080 .asr,
    ofKind "lsl" 0xE188 .lsl, ofKind "lsr" 0xE088 .lsr ]
where
  ofKind (name : String) (opcode : UInt16) (kind : ShiftKind) : Definition :=
    { mnemonic := name, opcode := opcode, operandMask := 0x0E27, sizes := [.long],
      format := .shift, operation := .shift kind }

def bits : List Definition :=
  both "btst" 0x0100 0x0800 (.data \ .imm) .test ++
  both "bchg" 0x0140 0x0840 .dataAlterable .change ++
  both "bclr" 0x0180 0x0880 .dataAlterable .clear ++
  both "bset" 0x01C0 0x08C0 .dataAlterable .set
where
  both (name : String) (inReg inWord : UInt16) (modes : Modes) (op : BitOp) : List Definition :=
    [ { mnemonic := name, opcode := inReg, operandMask := 0x0E3F, sizes := [.byte, .long],
        slot := .dst, dstModes := modes, format := .bitInReg, operation := .bit op },
      { mnemonic := name, opcode := inWord, operandMask := 0x003F, sizes := [.byte, .long],
        slot := .dst, dstModes := .upToDisp, format := .bitInWord, operation := .bit op } ]

def products : List Definition :=
  [ ofWord "mulu" 0xC0C0 (.multiplyWord false), ofWord "muls" 0xC1C0 (.multiplyWord true),
    ofWord "divu" 0x80C0 (.divideWord false), ofWord "divs" 0x81C0 (.divideWord true),
    { mnemonic := "mulu", aliases := ["muls"], opcode := 0x4C00, operandMask := 0x003F,
      sizes := [.long], slot := .src, srcModes := .upToDisp, format := .mulLong,
      operation := .multiplyLong },
    { mnemonic := "divu", aliases := ["divs", "remu", "rems"], opcode := 0x4C40,
      operandMask := 0x003F, sizes := [.long], slot := .src, srcModes := .upToDisp,
      format := .divLong, operation := .divideLong } ]
where
  ofWord (name : String) (opcode : UInt16) (operation : Operation) : Definition :=
    { mnemonic := name, opcode := opcode, operandMask := 0x0E3F, sizes := [.word], slot := .src,
      srcModes := .data, format := .eaToData .word, operation := operation }

def moves : List Definition :=
  [ ofSize 0x2000 .long, ofSize 0x3000 .word, ofSize 0x1000 .byte,
    immToDisp 0x3000 .word, immToDisp 0x1000 .byte,
    toAddr 0x2040 .long, toAddr 0x3040 .word,
    { mnemonic := "moveq", opcode := 0x7000, operandMask := 0x0EFF, sizes := [.long],
      format := .moveq, operation := .move },
    { mnemonic := "mov3q", opcode := 0xA140, operandMask := 0x0E3F, tier := .b, sizes := [.long],
      slot := .dst, dstModes := .alterable, format := .quick .minusOne, operation := .move },
    extending "mvs" 0x7100 true, extending "mvz" 0x7180 false,
    { mnemonic := "movem", opcode := 0x48C0, operandMask := 0x003F, sizes := [.long], slot := .dst,
      dstModes := .ind ∪ .disp, format := .listToEa, operation := .storeList },
    { mnemonic := "movem", opcode := 0x4CC0, operandMask := 0x003F, sizes := [.long], slot := .src,
      srcModes := .ind ∪ .disp, format := .eaToList, operation := .loadList },
    { mnemonic := "lea", opcode := 0x41C0, operandMask := 0x0E3F, slot := .src,
      srcModes := .control, format := .lea, operation := .loadAddress },
    { mnemonic := "pea", opcode := 0x4840, operandMask := 0x003F, slot := .src,
      srcModes := .control, format := .pea, operation := .pushAddress },
    { mnemonic := "swap", opcode := 0x4840, operandMask := 0x0007, sizes := [.word],
      defaultSize := some .word, format := .dataReg .word, operation := .swapHalves },
    { mnemonic := "link", opcode := 0x4E50, operandMask := 0x0007, sizes := [.word],
      defaultSize := some .word, format := .link, operation := .link },
    { mnemonic := "unlk", opcode := 0x4E58, operandMask := 0x0007, format := .unlk,
      operation := .unlink } ]
where
  ofSize (opcode : UInt16) (size : Size) : Definition :=
    { mnemonic := "move", opcode := opcode, operandMask := 0x0FFF, sizes := [size], slot := .move,
      srcModes := .all, dstModes := .dataAlterable, format := .move size false,
      operation := .move }
  immToDisp (opcode : UInt16) (size : Size) : Definition :=
    { mnemonic := "move", opcode := opcode, operandMask := 0x0FFF, tier := .b, sizes := [size],
      slot := .move, srcModes := .imm, dstModes := .disp, format := .move size true,
      operation := .move }
  toAddr (opcode : UInt16) (size : Size) : Definition :=
    { mnemonic := "movea", aliases := ["move"], opcode := opcode, operandMask := 0x0E3F,
      sizes := [size], slot := .src, srcModes := .all, format := .eaToAddr size,
      operation := .transfer }
  extending (name : String) (opcode : UInt16) (signed : Bool) : Definition :=
    { mnemonic := name, opcode := opcode, operandMask := 0x0E7F, tier := .b,
      sizes := [.byte, .word], defaultSize := some .word, slot := .src, srcModes := .data,
      format := .moveExtend, operation := .moveExtend signed }

def suffixes : List (String × List String) :=
  [("hi", []), ("ls", []), ("cc", ["hs"]), ("cs", ["lo"]), ("ne", []), ("eq", []), ("vc", []),
   ("vs", []), ("pl", []), ("mi", []), ("ge", []), ("lt", []), ("gt", []), ("le", [])]

/-- Conditional branches and conditional sets differ in what conditions 0 and 1 are called. -/
def conditional (letter first second : String) : List (String × List String) :=
  (first, []) :: (second, []) ::
    suffixes.map fun (name, others) => (letter ++ name, others.map (letter ++ ·))

def control : List Definition :=
  ((conditional "b" "bra" "bsr").zipIdx.flatMap fun ((name, aliases), cond) =>
    branches name aliases (UInt16.ofNat cond)) ++
  ((conditional "s" "st" "sf").zipIdx.map fun ((name, aliases), cond) =>
    setter name aliases (UInt16.ofNat cond)) ++
  [ { mnemonic := "tpf", opcode := 0x51F8, operandMask := 0x0007, sizes := [.word, .long],
      exclusions := [(0x0007, 0), (0x0007, 1), (0x0007, 5), (0x0007, 6), (0x0007, 7)],
      format := .tpf, operation := .nothing },
    { mnemonic := "jmp", opcode := 0x4EC0, operandMask := 0x003F, slot := .src,
      srcModes := .control, flow := .indirect, format := .jump, operation := .jump },
    { mnemonic := "jsr", opcode := 0x4E80, operandMask := 0x003F, slot := .src,
      srcModes := .control, flow := .call, format := .jump, operation := .call },
    { mnemonic := "rts", opcode := 0x4E75, operandMask := 0, flow := .return, format := .bare,
      operation := .returnFromCall } ]
where
  branches (name : String) (aliases : List String) (cond : UInt16) : List Definition :=
    let opcode := (0x6000 : UInt16) ||| (cond <<< 8)
    let flow : Flow := if cond = 0 then .branch else if cond = 1 then .call else .condBranch
    [ { mnemonic := name, aliases := aliases, opcode := opcode, operandMask := 0x00FF,
        sizes := [.byte, .word], flow := flow, exclusions := [(0x00FF, 0x00FF)],
        format := .branch, operation := .branch cond },
      { mnemonic := name, aliases := aliases, opcode := opcode ||| 0x00FF, operandMask := 0,
        tier := .b, sizes := [.long], flow := flow, format := .longBranch,
        operation := .branch cond } ]
  setter (name : String) (aliases : List String) (cond : UInt16) : Definition :=
    { mnemonic := name, aliases := aliases, opcode := (0x50C0 : UInt16) ||| (cond <<< 8),
      operandMask := 0x0007, sizes := [.byte], defaultSize := some .byte, format := .dataReg .byte,
      operation := .setCondition }

def system : List Definition :=
  [ { mnemonic := "nop", opcode := 0x4E71, operandMask := 0, format := .bare,
      operation := .nothing },
    { mnemonic := "illegal", opcode := 0x4AFC, operandMask := 0, flow := .stop, format := .bare,
      operation := .illegal },
    { mnemonic := "halt", opcode := 0x4AC8, operandMask := 0, privileged := true, flow := .stop,
      format := .bare, operation := .halt },
    { mnemonic := "rte", opcode := 0x4E73, operandMask := 0, privileged := true, flow := .return,
      format := .bare, operation := .returnFromException },
    { mnemonic := "stop", opcode := 0x4E72, operandMask := 0, privileged := true, flow := .stop,
      format := .immWord, operation := .stop },
    { mnemonic := "trap", opcode := 0x4E40, operandMask := 0x000F, format := .vector,
      operation := .trap },
    fromStatus 0x40C0 .sr true, toStatus 0x46C0 .sr true,
    fromStatus 0x42C0 .ccr false, toStatus 0x44C0 .ccr false,
    { mnemonic := "move", opcode := 0x4E60, operandMask := 0x0007, tier := .b, sizes := [.long],
      privileged := true, format := .toUsp, operation := .transfer },
    { mnemonic := "move", opcode := 0x4E68, operandMask := 0x0007, tier := .b, sizes := [.long],
      privileged := true, format := .fromUsp, operation := .transfer },
    { mnemonic := "movec", opcode := 0x4E7B, operandMask := 0, sizes := [.long],
      privileged := true, format := .control, operation := .transfer },
    { mnemonic := "cpushl", opcode := 0xF428, operandMask := 0x00C7, privileged := true,
      exclusions := [(0x00C0, 0)], format := .cachePush, operation := .unsimulated },
    { mnemonic := "intouch", opcode := 0xF428, operandMask := 0x0007, tier := .b,
      privileged := true, format := .cacheTouch, operation := .unsimulated },
    { mnemonic := "wddata", opcode := 0xFB00, operandMask := 0x00FF,
      sizes := [.byte, .word, .long], slot := .dst, dstModes := .memoryAlterable,
      exclusions := [(0x00C0, 0x00C0)], format := .sizedEa true, operation := .unsimulated },
    { mnemonic := "strldsr", opcode := 0x40E7, operandMask := 0, tier := .c, privileged := true,
      format := .loadStatus, operation := .unsimulated } ]
where
  fromStatus (opcode : UInt16) (reg : SpecialReg) (privileged : Bool) : Definition :=
    { mnemonic := "move", opcode := opcode, operandMask := 0x0007, sizes := [.word],
      defaultSize := some .word, privileged := privileged, format := .fromSpecial reg,
      operation := .transfer }
  toStatus (opcode : UInt16) (reg : SpecialReg) (privileged : Bool) : Definition :=
    { mnemonic := "move", opcode := opcode, operandMask := 0x003F, sizes := [.word],
      defaultSize := some .word, slot := .src, srcModes := .dn ∪ .imm, privileged := privileged,
      format := .toSpecial reg, operation := .transfer }

/-- The 141 definitions, in the order in which a request to the encoder tries them. -/
def all : List Definition :=
  arithmetic ++ logic ++ shifts ++ bits ++ products ++ moves ++ control ++ system

end ColdFire.Catalogue
