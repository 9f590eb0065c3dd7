import Z80.InstructionSet.Arithmetic
import Z80.InstructionSet.Basic
import Z80.InstructionSet.Load
import Z80.InstructionSet.Transfer

namespace Z80.InstructionSet

def builtin : InstructionSet where
  entries :=
    [Transfer.nop,
     ("ld", Load.ld),
     ("inc", Arithmetic.inc),
     ("dec", Arithmetic.dec),
     Transfer.rlca,
     ("ex", Transfer.ex),
     ("add", Arithmetic.add),
     Transfer.rrca,
     ("djnz", Control.djnz),
     Transfer.rla,
     ("jr", Control.jr),
     Transfer.rra] ++
    Transfer.flagged ++
    [("adc", Arithmetic.adc),
     ("sub", Arithmetic.sub),
     ("sbc", Arithmetic.sbc),
     ("and", Arithmetic.and),
     ("xor", Arithmetic.xor),
     ("or", Arithmetic.or),
     ("cp", Arithmetic.cp),
     ("ret", Control.ret),
     ("pop", Transfer.pop),
     ("jp", Control.jp),
     ("call", Control.call),
     ("push", Transfer.push),
     ("rst", Control.rst),
     ("rlc", Bits.rlc),
     ("rrc", Bits.rrc),
     ("rl", Bits.rl),
     ("rr", Bits.rr),
     ("sla", Bits.sla),
     ("sra", Bits.sra),
     ("sll", Bits.sll),
     ("srl", Bits.srl),
     ("bit", Bits.bit),
     ("res", Bits.res),
     ("set", Bits.set),
     ("out", Transfer.out),
     Transfer.exx,
     ("in", Transfer.in),
     ("neg", Transfer.neg),
     ("retn", Control.retn),
     ("reti", Control.reti),
     ("im", Control.im)] ++
    Transfer.digits ++
    Transfer.blocks ++
    Transfer.interrupts

end Z80.InstructionSet
